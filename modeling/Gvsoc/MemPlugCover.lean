import Gvsoc.MemPlug
import Gvsoc.Tiling
import Mathlib.Data.BitVec
import Mathlib.Tactic.Ring

/-! What the ports of a `Mem_plug` send for a request, over any run. A request of whole words is covered word by word, in
order, by the port that serves it, and terminated once; any other size never comes down to zero. -/
namespace Gvsoc.MemPlug
open Queue (Store Represents EndKnown)
open Machine (Run runInvariant)
open Tiling (Tiles)

section History

variable {n : Nat} {ε : Type} [DecidableEq ε]

/- The plug with its history: of each request, what it was when it was enqueued last, and since then the accesses that were
sent for it and the calls of its `handle_termination`. -/
structure Watch (n : Nat) (ε : Type) where
  plug : Plug n ε
  given : ε → Option Req
  served : ε → List (Access n)
  ended : ε → Nat

def Watch.start (plug : Plug n ε) : Watch n ε := ⟨plug, fun _ => none, fun _ => [], fun _ => 0⟩

def Watch.note (w : Watch n ε) (a : Action n ε) (next : Plug n ε) : Watch n ε :=
  match a with
  | .enqueue e _ =>
      { plug := next
        given := Function.update w.given e (some (w.plug.req e))
        served := Function.update w.served e []
        ended := Function.update w.ended e 0 }
  | .event i _ _ =>
      match w.plug.queues.head (some i) with
      | none => { w with plug := next }
      | some e =>
          { w with
            plug := next
            served := Function.update w.served e (w.served e ++ next.sent.getLast?.toList)
            ended := if next.phase = .terminating i then Function.update w.ended e (w.ended e + 1) else w.ended }
  | _ => { w with plug := next }

def Watch.step (w : Watch n ε) (a : Action n ε) : Option (Watch n ε) := (MemPlug.step w.plug a).map (w.note a)

def word (r : Req) (i : Fin n) (j : Nat) : Access n :=
  ⟨i, r.addr + BitVec.ofNat 32 (4 * j), r.data + BitVec.ofNat 64 (4 * j), 4, r.isWrite⟩

def Req.after (r : Req) (j : Nat) : Req :=
  ⟨r.addr + BitVec.ofNat 32 (4 * j), r.data + BitVec.ofNat 64 (4 * j), r.size - BitVec.ofNat 32 (4 * j), r.isWrite⟩

/- The accesses so far fill the request from its start, on one port. They fill all of it when, and only when, it has been
terminated, which happens once. A port that holds it has its event enqueued, which sends the next word. -/
structure Covering (w : Watch n ε) (e : ε) (r : Req) : Prop where
  tiles : Tiles (fun a => (a.addr - r.addr).toNat) (fun a => a.size.toNat) 0 (w.served e) (4 * (w.served e).length)
  within : 4 * (w.served e).length ≤ r.size.toNat
  data : ∀ a ∈ w.served e, a.data = r.data + (a.addr - r.addr).setWidth 64 ∧ a.isWrite = r.isWrite
  onePort : ∀ a ∈ w.served e, ∀ b ∈ w.served e, a.port = b.port
  ended : w.ended e = if 4 * (w.served e).length = r.size.toNat then 1 else 0
  goesOn : ∀ i, w.plug.queues.head (some i) = some e → (w.plug.event i).isSome = true ∧ 4 * (w.served e).length < r.size.toNat ∧
    (w.plug.phase = .rest → ∀ time latency, ∃ next, w.step (.event i time latency) = some next ∧
      next.served e = w.served e ++ [word r i (w.served e).length])

end History

section Words

variable {n : Nat} {r : Req} {i : Fin n} {l : List (Access n)} {j : Nat}

theorem wordPlace (inside : 4 * j < 2 ^ 32) : ((word r i j).addr - r.addr).toNat = 4 * j := by
  have place : (word r i j).addr - r.addr = BitVec.ofNat 32 (4 * j) := by
    unfold word
    ring
  rw [place, BitVec.toNat_ofNat, Nat.mod_eq_of_lt inside]

theorem wordsTile (words : ∀ j (inside : j < l.length), ∃ i, l[j] = word r i j) (bound : 4 * l.length < 2 ^ 32) :
    Tiles (fun a : Access n => (a.addr - r.addr).toNat) (fun a => a.size.toNat) 0 l (4 * l.length) := by
  induction l using List.reverseRecOn with
  | nil => exact .nil 0
  | append_singleton l a ih =>
      rw [List.length_append, List.length_singleton] at bound ⊢
      obtain ⟨i, last⟩ := words l.length (by simp)
      rw [List.getElem_concat_length rfl] at last
      have before := ih (fun j inside => by
        obtain ⟨i, same⟩ := words j (by rw [List.length_append]; omega)
        rw [List.getElem_append_left inside] at same
        exact ⟨i, same⟩) (by omega)
      have four : (word r i l.length).size.toNat = 4 := rfl
      have longer := Tiling.tilesSnoc a before (by rw [last, wordPlace (by omega)]) (by rw [last, four]; omega)
      rw [last, four] at longer
      rw [last]
      exact longer

theorem afterFirst (r : Req) : r.after 0 = r := by
  simp [Req.after]

theorem afterSize (inside : 4 * j ≤ r.size.toNat) : (r.after j).size.toNat = r.size.toNat - 4 * j := by
  have bound := r.size.isLt
  have number : (BitVec.ofNat 32 (4 * j)).toNat = 4 * j := by
    rw [BitVec.toNat_ofNat, Nat.mod_eq_of_lt (by omega)]
  unfold Req.after
  rw [BitVec.toNat_sub_of_le (by rw [BitVec.le_def, number]; exact inside), number]

theorem afterNext (r : Req) (j : Nat) :
    (⟨(r.after j).addr + 4, (r.after j).data + 4, (r.after j).size - 4, (r.after j).isWrite⟩ : Req) = r.after (j + 1) := by
  have next (w : Nat) : BitVec.ofNat w (4 * (j + 1)) = BitVec.ofNat w (4 * j) + 4 := by
    rw [Nat.mul_succ, BitVec.ofNat_add]
    rfl
  unfold Req.after
  rw [next, next]
  congr 1
  · ring
  · ring
  · ring

theorem nextWord {left : Req} (rest : left = r.after j) (whole : r.size.toNat % 4 = 0) (more : 4 * j < r.size.toNat) :
    (⟨i, left.addr, left.data, if left.size < 4 then left.size else 4, left.isWrite⟩ : Access n) = word r i j := by
  have size : (r.after j).size.toNat = r.size.toNat - 4 * j := afterSize (by omega)
  have enough : ¬ left.size < 4 := by
    rw [rest, BitVec.lt_def, size]
    simp only [BitVec.reduceToNat]
    omega
  rw [if_neg enough, rest]
  rfl

theorem wordData (inside : 4 * j < 2 ^ 32) :
    (word r i j).data = r.data + ((word r i j).addr - r.addr).setWidth 64 := by
  have place : ((word r i j).addr - r.addr).setWidth 64 = BitVec.ofNat 64 (4 * j) := by
    rw [← BitVec.toNat_inj, BitVec.toNat_setWidth, wordPlace inside, BitVec.toNat_ofNat]
  rw [place]
  rfl

end Words

section Placed

variable {n : Nat} {ε : Type} {s : Plug n ε} {lists : Option (Fin n) → List ε} {time : Int} {e : ε} {i : Fin n}

structure Placed (s : Plug n ε) (lists : Option (Fin n) → List ε) : Prop where
  rep : Represents s.queues lists
  single : ∀ i, (lists (some i)).length ≤ 1
  safe : EndSafe s lists
  free : ((occupied lists).card : Int) ≤ s.nbPendingReqs
  woken : ∀ i, lists (some i) ≠ [] → (s.event i).isSome = true

theorem placedAccounted (placed : Placed s lists) : Accounted { s with nbPendingReqs := (occupied lists).card } lists :=
  ⟨placed.rep, placed.single, placed.safe, rfl⟩

theorem portHead (placed : Placed s lists) (i : Fin n) : s.queues.head (some i) = (lists (some i)).head? :=
  Queue.representedFirst placed.rep

theorem portAlone (placed : Placed s lists) (head : s.queues.head (some i) = some e) : lists (some i) = [e] := by
  rw [portHead placed] at head
  exact aloneIn (placed.single i) (List.mem_of_head? head)

@[simp] theorem portCheckStateReq (i : Fin n) : (s.portCheckState time i).req = s.req := by
  unfold Plug.portCheckState
  split_ifs <;> rfl

theorem portCheckStateKeeps (i : Fin n) {j : Fin n} (woken : (s.event j).isSome = true) :
    ((s.portCheckState time i).event j).isSome = true := by
  unfold Plug.portCheckState
  split_ifs
  · exact woken
  · exact woken
  all_goals
    simp only
    by_cases same : j = i
    · rw [same, Function.update_self]
      rfl
    · rw [Function.update_of_ne same]
      exact woken

theorem portCheckStateWakes (i : Fin n) (some : s.queues.empty (some i) = false) :
    ((s.portCheckState time i).event i).isSome = true := by
  unfold Plug.portCheckState
  split_ifs with already empty
  · exact already
  · simp [some] at empty
  all_goals simp

theorem placedCheck (placed : Placed s lists) (i : Fin n) : Placed (s.portCheckState time i) lists := by
  have same : Accounted { s.portCheckState time i with nbPendingReqs := (occupied lists).card } lists :=
    accountedCongr (placedAccounted placed) (portCheckStateQueues i) rfl
  exact ⟨same.rep, same.single, same.safe, by rw [portCheckStateCount]; exact placed.free,
    fun j some => portCheckStateKeeps i (placed.woken j some)⟩

inductive Moved (lists : Option (Fin n) → List ε) : (Option (Fin n) → List ε) → Prop
  | stays : Moved lists lists
  | given (j : Fin n) (x : ε) (waiting : List ε) (first : lists none = x :: waiting) (idle : lists (some j) = []) :
      Moved lists (Function.update (Function.update lists none waiting) (some j) [x])

variable [DecidableEq ε]

theorem checkStateMoved (time : Int) (placed : Placed s lists) :
    ∃ lists', Placed (s.checkState time) lists' ∧ Moved lists lists' ∧ (s.checkState time).req = s.req := by
  have empty := Queue.representedEmpty (q := none) placed.rep
  unfold Plug.checkState
  split_ifs with ready
  · obtain ⟨few, some⟩ := ready
    rw [empty] at some
    cases first : lists none with
    | nil => simp [first] at some
    | cons x waiting =>
        have head := (Queue.popRepresents placed.rep none).2
        rw [first, List.head?_cons] at head
        have free := placed.free
        obtain ⟨i, idle⟩ := portFree (show (occupied lists).card < n by omega)
        have stays : ∀ j, (s.queues.pop none).1.empty (Option.some j) = (lists (Option.some j)).isEmpty := by
          intro j
          have same := Queue.representedEmpty (q := Option.some j) (Queue.popRepresents placed.rep none).1
          simpa using same
        obtain ⟨j, taken, given⟩ := offerTaken time x
          (s := { s with queues := (s.queues.pop none).1, nbPendingReqs := s.nbPendingReqs + 1 })
          ⟨i, List.mem_finRange i, by simp [stays, idle]⟩
        rw [stays] at taken
        have none' := List.isEmpty_iff.mp taken
        have after := givenAccounted time (placedAccounted placed) first none'
        have shape : s.queues.pop none = ((s.queues.pop none).1, Option.some x) := Prod.ext rfl head
        rw [shape]
        simp only
        rw [given]
        refine ⟨_, ⟨?_, after.single, ?_, ?_, ?_⟩, .given j x waiting first none', by simp⟩
        · simpa using after.rep
        · simpa [EndSafe] using after.safe
        · have absent : j ∉ occupied lists := by simp [occupied, none']
          rw [portCheckStateCount, occupiedGiven, occupiedWaiting, Finset.card_insert_of_notMem absent]
          push_cast
          omega
        · intro k busy
          by_cases same : k = j
          · subst k
            refine portCheckStateWakes j ?_
            have pushed := Queue.representedEmpty (q := Option.some j) after.rep
            simpa using pushed
          · refine portCheckStateKeeps j (placed.woken k ?_)
            simpa [same] using busy
  · exact ⟨lists, placed, .stays, rfl⟩

theorem placedEnqueue (placed : Placed s lists) (fresh : ∀ q, e ∉ lists q) :
    ∃ waiting, (∀ x ∈ waiting, x ∈ lists none ∨ x = e) ∧
      Placed { s with queues := s.queues.pushBack none e } (Function.update lists none waiting) := by
  obtain ⟨waiting, shape, pushed⟩ := waitingAccounted (placedAccounted placed) fresh
  refine ⟨waiting, ?_, pushed.rep, pushed.single, pushed.safe, ?_, ?_⟩
  · rcases shape with rfl | ⟨rfl, -⟩
    · simp
    · exact fun x inside => .inl inside
  · rw [occupiedWaiting]
    exact placed.free
  · intro i busy
    exact placed.woken i (by simpa using busy)

omit [DecidableEq ε] in
theorem placedEvent (placed : Placed s lists) (idle : lists (some i) = []) :
    Placed { s with event := Function.update s.event i none } lists := by
  refine ⟨placed.rep, placed.single, placed.safe, placed.free, fun j busy => ?_⟩
  have other : j ≠ i := by
    rintro rfl
    contradiction
  simp only
  rw [Function.update_of_ne other]
  exact placed.woken j busy

omit [DecidableEq ε] in
theorem placedSend {s' : Plug n ε} (placed : Placed s lists) (queues : s'.queues = s.queues)
    (count : s'.nbPendingReqs = s.nbPendingReqs) (event : s'.event = Function.update s.event i none) :
    Placed (s'.portCheckState time i) lists := by
  have same : Accounted { s'.portCheckState time i with nbPendingReqs := (occupied lists).card } lists :=
    accountedCongr (placedAccounted placed) ((portCheckStateQueues i).trans queues) rfl
  refine ⟨same.rep, same.single, same.safe, by rw [portCheckStateCount, count]; exact placed.free, fun j busy => ?_⟩
  by_cases here : j = i
  · subst j
    refine portCheckStateWakes i ?_
    rw [queues, Queue.representedEmpty placed.rep]
    simpa using busy
  · refine portCheckStateKeeps i ?_
    rw [event, Function.update_of_ne here]
    exact placed.woken j busy

omit [DecidableEq ε] in
theorem placedDone {s' : Plug n ε} (placed : Placed s lists) (alone : lists (some i) = [e])
    (queues : s'.queues = (s.queues.pop (some i)).1) (count : s'.nbPendingReqs = s.nbPendingReqs - 1)
    (event : s'.event = Function.update s.event i none) : Placed s' (Function.update lists (some i) []) := by
  obtain ⟨rep, safe, freed⟩ := freedAccounted (placedAccounted placed) alone
  have free := placed.free
  refine ⟨queues ▸ rep, ?_, ?_, ?_, ?_⟩
  · intro j
    by_cases same : j = i
    · subst j
      simp
    · simpa [same] using placed.single j
  · unfold EndSafe at safe ⊢
    rw [queues]
    exact safe
  · rw [count]
    omega
  · intro j busy
    have other : j ≠ i := by
      rintro rfl
      simp at busy
    rw [event, Function.update_of_ne other]
    exact placed.woken j (by simpa [other] using busy)

theorem placedCancel {q : Option (Fin n)} (placed : Placed s lists) (here : e ∈ lists q) :
    ∃ queues, s.queues.cancel e = some queues ∧
      Placed { s with queues := queues } (Function.update lists q ((lists q).erase e)) := by
  cases q with
  | none =>
      obtain ⟨queues, cancelled, after⟩ := cancelledAccounted (placedAccounted placed) here
      refine ⟨queues, cancelled, after.rep, after.single, after.safe, ?_, ?_⟩
      · rw [occupiedWaiting]
        exact placed.free
      · intro i busy
        exact placed.woken i (by simpa using busy)
  | some i =>
      obtain ⟨queues, cancelled, last, rep⟩ := Queue.cancelRepresents placed.rep here
      have alone := aloneIn (placed.single i) here
      have gone : (lists (some i)).erase e = [] := by simp [alone]
      rw [gone] at rep ⊢
      have fewer : occupied (Function.update lists (some i) []) = (occupied lists).erase i := occupiedFreed i
      have free := placed.free
      refine ⟨queues, cancelled, rep, ?_, ?_, ?_, ?_⟩
      · intro j
        by_cases same : j = i
        · subst j
          simp
        · simpa [same] using placed.single j
      · have safe := placed.safe
        unfold EndSafe EndKnown at safe ⊢
        simp only [last]
        rcases safe with known | ⟨stale, points, outside⟩
        · exact .inl (by simpa using known)
        · refine .inr ⟨stale, points, fun q inside => ?_⟩
          by_cases same : q = some i
          · subst q
            simp at inside
          · exact outside q (by simpa [same] using inside)
      · have less := Finset.card_erase_le (a := i) (s := occupied lists)
        rw [fewer]
        simp only
        omega
      · intro j busy
        have other : j ≠ i := by
          rintro rfl
          simp at busy
        exact placed.woken j (by simpa [other] using busy)

end Placed

section Follow

variable {n : Nat} {ε : Type} [DecidableEq ε] {w w' : Watch n ε} {lists lists' : Option (Fin n) → List ε} {e x : ε} {r : Req}
  {i : Fin n}

structure Tracked (w : Watch n ε) (lists : Option (Fin n) → List ε) (e : ε) (r : Req) : Prop where
  words : ∀ j (inside : j < (w.served e).length), ∃ i, (w.served e)[j] = word r i j
  onePort : ∀ a ∈ w.served e, ∀ b ∈ w.served e, a.port = b.port
  within : 4 * (w.served e).length ≤ r.size.toNat
  ended : w.ended e = if 4 * (w.served e).length = r.size.toNat then 1 else 0
  waiting : e ∈ lists none → w.served e = [] ∧ w.plug.req e = r
  taken : ∀ i, e ∈ lists (some i) →
    w.plug.req e = r.after (w.served e).length ∧ (∀ a ∈ w.served e, a.port = i) ∧ 4 * (w.served e).length < r.size.toNat

/- The size of a request that is not of whole words goes past zero. -/
structure Endless (w : Watch n ε) (lists : Option (Fin n) → List ε) (e : ε) : Prop where
  ended : w.ended e = 0
  odd : ∀ q, e ∈ lists q → (w.plug.req e).size.toNat % 4 ≠ 0

def Followed (w : Watch n ε) (lists : Option (Fin n) → List ε) (e : ε) (r : Req) : Prop :=
  (r.size.toNat % 4 = 0 → Tracked w lists e r) ∧ (r.size.toNat % 4 ≠ 0 → Endless w lists e)

structure Apart (w w' : Watch n ε) (e : ε) : Prop where
  served : w'.served e = w.served e
  ended : w'.ended e = w.ended e
  req : w'.plug.req e = w.plug.req e

omit [DecidableEq ε] in
theorem followedApart (apart : Apart w w' e) (fewer : ∀ q, e ∈ lists' q → e ∈ lists q) (followed : Followed w lists e r) :
    Followed w' lists' e r := by
  obtain ⟨served, ended, req⟩ := apart
  refine ⟨fun whole => ?_, fun broken => ?_⟩
  · have tracked := followed.1 whole
    refine ⟨?_, ?_, ?_, ?_, ?_, ?_⟩
    · rw [served]
      exact tracked.words
    · rw [served]
      exact tracked.onePort
    · rw [served]
      exact tracked.within
    · rw [served, ended]
      exact tracked.ended
    · rw [served, req]
      exact fun inside => tracked.waiting (fewer _ inside)
    · rw [served, req]
      exact fun i inside => tracked.taken i (fewer _ inside)
  · have endless := followed.2 broken
    refine ⟨ended.trans endless.ended, fun q inside => ?_⟩
    rw [req]
    exact endless.odd q (fewer q inside)

omit [DecidableEq ε] in
theorem movedFrom (moved : Moved lists lists') {q : Option (Fin n)} (inside : e ∈ lists' q) :
    e ∈ lists q ∨ e ∈ lists none := by
  cases moved with
  | stays => exact .inl inside
  | given j x waiting first idle =>
      by_cases port : q = some j
      · subst q
        rw [Function.update_self, List.mem_singleton] at inside
        exact .inr (by rw [first, inside]; exact List.mem_cons_self)
      · rw [Function.update_of_ne port] at inside
        by_cases queue : q = none
        · subst q
          rw [Function.update_self] at inside
          exact .inr (by rw [first]; exact List.mem_cons_of_mem x inside)
        · rw [Function.update_of_ne queue] at inside
          exact .inl inside

omit [DecidableEq ε] in
theorem followedMoved (moved : Moved lists lists') (some : 0 < r.size.toNat) (followed : Followed w lists e r) :
    Followed w lists' e r := by
  refine ⟨fun whole => ?_, fun broken => ?_⟩
  · have tracked := followed.1 whole
    refine { tracked with waiting := fun inside => ?_, taken := fun i inside => ?_ }
    · exact tracked.waiting ((movedFrom moved inside).elim id id)
    · rcases movedFrom moved inside with before | before
      · exact tracked.taken i before
      · obtain ⟨nothing, all⟩ := tracked.waiting before
        rw [nothing, List.length_nil, afterFirst]
        exact ⟨all, by simp, by omega⟩
  · have endless := followed.2 broken
    exact ⟨endless.ended, fun q inside => (movedFrom moved inside).elim (endless.odd q) (endless.odd none)⟩

def Known (w : Watch n ε) (lists : Option (Fin n) → List ε) : Prop :=
  ∀ e r, w.given e = some r → 0 < r.size.toNat → Followed w lists e r

omit [DecidableEq ε] in
theorem knownMoved (moved : Moved lists lists') (known : Known w lists) : Known w lists' :=
  fun e r given some => followedMoved moved some (known e r given some)

omit [DecidableEq ε] in
theorem knownApart (given : w'.given = w.given) (apart : ∀ e, Apart w w' e) (fewer : ∀ q e, e ∈ lists' q → e ∈ lists q)
    (known : Known w lists) : Known w' lists' :=
  fun e r before some => followedApart (apart e) (fun q => fewer q e) (known e r (given ▸ before) some)

omit [DecidableEq ε] in
theorem followedSent {a : Access n} (followed : Followed w lists x r) (here : x ∈ lists (some i))
    (sent : a = ⟨i, (w.plug.req x).addr, (w.plug.req x).data,
      if (w.plug.req x).size < 4 then (w.plug.req x).size else 4, (w.plug.req x).isWrite⟩)
    (served : w'.served x = w.served x ++ [a])
    (req : w'.plug.req x = ⟨(w.plug.req x).addr + 4, (w.plug.req x).data + 4, (w.plug.req x).size - 4, (w.plug.req x).isWrite⟩)
    (ended : w'.ended x = if (w.plug.req x).size - 4 = 0 then w.ended x + 1 else w.ended x)
    (fewer : ∀ q, x ∈ lists' q → q = some i) (gone : (w.plug.req x).size - 4 = 0 → ∀ q, x ∉ lists' q) :
    Followed w' lists' x r := by
  refine ⟨fun whole => ?_, fun broken => ?_⟩
  · have tracked := followed.1 whole
    obtain ⟨left, port, more⟩ := tracked.taken i here
    have longer : (w'.served x).length = (w.served x).length + 1 := by rw [served, List.length_append, List.length_singleton]
    have next : (⟨(w.plug.req x).addr + 4, (w.plug.req x).data + 4, (w.plug.req x).size - 4, (w.plug.req x).isWrite⟩ : Req) =
        r.after ((w.served x).length + 1) := by
      rw [left]
      exact afterNext r _
    have last : (w.plug.req x).size - 4 = 0 ↔ 4 * ((w.served x).length + 1) = r.size.toNat := by
      have shape : (w.plug.req x).size - 4 = (r.after ((w.served x).length + 1)).size := congrArg Req.size next
      rw [shape, ← BitVec.toNat_inj, afterSize (by omega)]
      have zero : (0 : BitVec 32).toNat = 0 := rfl
      omega
    have isWord : a = word r i (w.served x).length := sent.trans (nextWord left whole more)
    refine ⟨?_, ?_, by rw [longer]; omega, ?_, ?_, ?_⟩
    · intro j inside
      rw [longer] at inside
      rcases Nat.lt_succ_iff_lt_or_eq.mp inside with before | rfl
      · obtain ⟨k, same⟩ := tracked.words j before
        refine ⟨k, ?_⟩
        simp only [served]
        rw [List.getElem_append_left before, same]
      · refine ⟨i, ?_⟩
        simp only [served]
        rw [List.getElem_concat_length rfl, isWord]
    · have all : ∀ b ∈ w'.served x, b.port = i := by
        intro b inside
        rw [served, List.mem_append, List.mem_singleton] at inside
        rcases inside with before | rfl
        · exact port b before
        · rw [sent]
      exact fun b first c second => (all b first).trans (all c second).symm
    · rw [ended, longer, tracked.ended, if_neg (show ¬ 4 * (w.served x).length = r.size.toNat by omega)]
      simp only [last]
    · intro inside
      have other := fewer none inside
      contradiction
    · intro k inside
      obtain rfl := Option.some.inj (fewer _ inside)
      refine ⟨by rw [req, next, longer], ?_, ?_⟩
      · intro b member
        rw [served, List.mem_append, List.mem_singleton] at member
        rcases member with before | rfl
        · exact port b before
        · rw [sent]
      · have unfinished : ¬ 4 * ((w.served x).length + 1) = r.size.toNat := fun all => gone (last.mpr all) _ inside
        rw [longer]
        omega
  · have endless := followed.2 broken
    have odd := endless.odd _ here
    have bound := (w.plug.req x).size.isLt
    have next : ((w.plug.req x).size - 4).toNat % 4 ≠ 0 := by
      rw [BitVec.toNat_sub]
      simp only [BitVec.reduceToNat]
      omega
    refine ⟨?_, fun q _ => by rw [req]; exact next⟩
    rw [ended, if_neg, endless.ended]
    intro zero
    rw [zero] at next
    simp at next

end Follow

section Steps

variable {n : Nat} {ε : Type} [DecidableEq ε] {w : Watch n ε} {lists : Option (Fin n) → List ε} {e x : ε} {r : Req} {i : Fin n}
  {time latency : Int}

theorem enqueueKnown (placed : Placed w.plug lists) (known : Known w lists) (fresh : ∀ q, x ∉ lists q) :
    ∃ lists', Placed (w.plug.enqueue time x) lists' ∧ Known (w.note (.enqueue x time) (w.plug.enqueue time x)) lists' := by
  obtain ⟨waiting, shape, pushed⟩ := placedEnqueue placed fresh
  obtain ⟨lists', after, moved, req⟩ := checkStateMoved time pushed
  refine ⟨lists', after, knownMoved moved fun e r given some => ?_⟩
  have same : (w.plug.enqueue time x).req = w.plug.req := req
  by_cases it : e = x
  · subst it
    simp only [Watch.note, Function.update_self, Option.some.injEq] at given
    subst given
    refine ⟨fun whole => ⟨?_, ?_, ?_, ?_, ?_, ?_⟩, fun broken => ⟨?_, ?_⟩⟩
    · simp [Watch.note]
    · simp [Watch.note]
    · simp [Watch.note]
    · simp only [Watch.note, Function.update_self, List.length_nil]
      rw [if_neg (by omega)]
    · simp [Watch.note, same]
    · intro i inside
      rw [Function.update_of_ne (by simp)] at inside
      exact absurd inside (fresh (Option.some i))
    · simp [Watch.note]
    · intro q inside
      simpa [Watch.note, same] using broken
  · refine followedApart (w := w) ⟨?_, ?_, ?_⟩ (fun q inside => ?_) (known e r (by simpa [Watch.note, it] using given) some)
    · simp [Watch.note, it]
    · simp [Watch.note, it]
    · simp [Watch.note, same]
    · cases q with
      | none => exact (shape e (by simpa using inside)).resolve_right it
      | some i => simpa using inside

def Plug.sentWord (s : Plug n ε) (time : Int) (i : Fin n) (e : ε) (latency : Int) : Plug n ε :=
  { s with event := Function.update s.event i none }.send time i e latency

theorem eventLast (head : w.plug.queues.head (some i) = some x) (last : (w.plug.req x).size - 4 = 0) :
    w.plug.eventHandler time i latency = { w.plug.sentWord time i x latency with
      queues := (w.plug.queues.pop (some i)).1, nbPendingReqs := w.plug.nbPendingReqs - 1, phase := .terminating i } := by
  unfold Plug.eventHandler
  simp only [head]
  rw [if_pos (by simpa [Plug.send] using last)]
  rfl

theorem eventMore (head : w.plug.queues.head (some i) = some x) (more : (w.plug.req x).size - 4 ≠ 0) :
    w.plug.eventHandler time i latency = (w.plug.sentWord time i x latency).portCheckState time i := by
  unfold Plug.eventHandler
  simp only [head]
  rw [if_neg (by simpa [Plug.send] using more)]
  rfl

theorem sentWordSent (s : Plug n ε) (time latency : Int) : (s.sentWord time i x latency).sent.getLast?.toList =
    [⟨i, (s.req x).addr, (s.req x).data, if (s.req x).size < 4 then (s.req x).size else 4, (s.req x).isWrite⟩] := by
  simp [Plug.sentWord, Plug.send]

omit [DecidableEq ε] in
@[simp] theorem portCheckStateSent (s : Plug n ε) (i : Fin n) : (s.portCheckState time i).sent = s.sent := by
  unfold Plug.portCheckState
  split_ifs <;> rfl

theorem sentWordReq (s : Plug n ε) (time latency : Int) : (s.sentWord time i x latency).req = Function.update s.req x
    ⟨(s.req x).addr + 4, (s.req x).data + 4, (s.req x).size - 4, (s.req x).isWrite⟩ := rfl

theorem eventSpec (time latency : Int) (placed : Placed w.plug lists) (rest : w.plug.phase = .rest) (head : w.plug.queues.head (some i) = some x) :
    ∃ lists', Placed (w.plug.eventHandler time i latency) lists' ∧ (∀ q e, e ∈ lists' q → e ∈ lists q) ∧
      ((w.plug.req x).size - 4 = 0 → ∀ q, x ∉ lists' q) ∧
      (w.plug.eventHandler time i latency).sent.getLast?.toList = [⟨i, (w.plug.req x).addr, (w.plug.req x).data,
        if (w.plug.req x).size < 4 then (w.plug.req x).size else 4, (w.plug.req x).isWrite⟩] ∧
      (w.plug.eventHandler time i latency).req = Function.update w.plug.req x
        ⟨(w.plug.req x).addr + 4, (w.plug.req x).data + 4, (w.plug.req x).size - 4, (w.plug.req x).isWrite⟩ ∧
      ((w.plug.eventHandler time i latency).phase = .terminating i ↔ (w.plug.req x).size - 4 = 0) := by
  have alone := portAlone placed head
  by_cases last : (w.plug.req x).size - 4 = 0
  · rw [eventLast head last]
    refine ⟨_, placedDone placed alone rfl rfl rfl, ?_, fun _ q inside => ?_, sentWordSent w.plug time latency, sentWordReq w.plug time latency, ?_⟩
    · intro q e inside
      by_cases here : q = some i
      · subst q
        simp at inside
      · simpa [here] using inside
    · by_cases here : q = some i
      · subst q
        simp at inside
      · have both := Queue.representedApart placed.rep (show x ∈ lists q by simpa [here] using inside)
          (show x ∈ lists (some i) by simp [alone])
        contradiction
    · exact iff_of_true rfl last
  · rw [eventMore head last]
    refine ⟨lists, placedSend placed rfl rfl rfl, fun q e inside => inside, fun zero => absurd zero last, ?_, ?_, ?_⟩
    · rw [portCheckStateSent]
      exact sentWordSent w.plug time latency
    · rw [portCheckStateReq]
      exact sentWordReq w.plug time latency
    · have still : (w.plug.sentWord time i x latency).phase = .rest := rest
      rw [portCheckStatePhase, still]
      exact iff_of_false (by simp) last

theorem eventKnown (time latency : Int) (placed : Placed w.plug lists) (known : Known w lists) (rest : w.plug.phase = .rest) :
    ∃ lists', Placed (w.plug.eventHandler time i latency) lists' ∧
      Known (w.note (.event i time latency) (w.plug.eventHandler time i latency)) lists' := by
  cases head : w.plug.queues.head (some i) with
  | none =>
      have idle : lists (some i) = [] := by
        rw [portHead placed] at head
        exact List.head?_eq_none_iff.mp head
      have shape : w.plug.eventHandler time i latency = { w.plug with event := Function.update w.plug.event i none } := by
        unfold Plug.eventHandler
        simp only [head]
      rw [shape]
      refine ⟨lists, placedEvent placed idle, knownApart (w := w) ?_ (fun e => ⟨?_, ?_, ?_⟩) (fun q e inside => inside) known⟩
      all_goals simp only [Watch.note, head]
  | some x =>
      obtain ⟨lists', after, fewer, gone, sent, req, done⟩ := eventSpec time latency placed rest head
      have alone := portAlone placed head
      have here : x ∈ lists (some i) := by simp [alone]
      refine ⟨lists', after, fun e r given some => ?_⟩
      have given' : w.given e = Option.some r := by simpa only [Watch.note, head] using given
      by_cases it : e = x
      · subst it
        refine followedSent (known e r given' some) here rfl ?_ ?_ ?_ (fun q inside => ?_) gone
        · simp only [Watch.note, head, Function.update_self]
          rw [sent]
        · simp only [Watch.note, head]
          rw [req, Function.update_self]
        · simp only [Watch.note, head, done]
          split_ifs <;> simp
        · exact Queue.representedApart placed.rep (fewer q e inside) here
      · refine followedApart (w := w) ⟨?_, ?_, ?_⟩ (fun q => fewer q e) (known e r given' some)
        · simp only [Watch.note, head]
          rw [Function.update_of_ne it]
        · simp only [Watch.note, head]
          split_ifs
          · rw [Function.update_of_ne it]
          · rfl
        · simp only [Watch.note, head]
          rw [req, Function.update_of_ne it]

theorem notePlug (w : Watch n ε) (a : Action n ε) (next : Plug n ε) : (w.note a next).plug = next := by
  cases a with
  | event i time latency =>
      unfold Watch.note
      cases head : w.plug.queues.head (some i) <;> simp [head]
  | _ => rfl

def Good (w : Watch n ε) : Prop := ∃ lists, Placed w.plug lists ∧ Known w lists

theorem stepGood {w' : Watch n ε} {a : Action n ε} (good : Good w) (proper : Proper w.plug a) (taken : w.step a = some w') :
    Good w' := by
  obtain ⟨lists, placed, known⟩ := good
  obtain ⟨next, stepped, rfl⟩ := Option.map_eq_some_iff.mp taken
  cases a with
  | enqueue e time =>
      cases stepped
      exact enqueueKnown placed known fun q => Queue.representedElements placed.rep ▸ proper q
  | event i time latency =>
      simp only [MemPlug.step] at stepped
      split at stepped
      · rename_i ready
        cases stepped
        obtain ⟨lists', after, known'⟩ := eventKnown (i := i) time latency placed known ready.1
        exact ⟨lists', (notePlug w (.event i time latency) _).symm ▸ after, known'⟩
      · contradiction
  | terminated time =>
      simp only [MemPlug.step] at stepped
      split at stepped
      · contradiction
      · rename_i i phase
        cases stepped
        obtain ⟨lists', after, moved, req⟩ := checkStateMoved time placed
        have checked : Placed ((w.plug.checkState time).portCheckState time i) lists' := placedCheck after i
        refine ⟨lists', ⟨checked.rep, checked.single, checked.safe, checked.free, checked.woken⟩, ?_⟩
        refine knownApart (w := w) rfl (fun e => ⟨rfl, rfl, ?_⟩) (fun q e inside => inside) (knownMoved moved known)
        simp only [Watch.note, portCheckStateReq]
        rw [req]
  | cancel e =>
      obtain ⟨q, here⟩ := proper
      rw [Queue.representedElements placed.rep] at here
      obtain ⟨queues, cancelled, after⟩ := placedCancel placed here
      simp only [MemPlug.step, cancelled, Option.map_some, Option.some.injEq] at stepped
      subst stepped
      refine ⟨_, after, knownApart (w := w) rfl (fun e => ⟨rfl, rfl, rfl⟩) (fun k x inside => ?_) known⟩
      by_cases same : k = q
      · subst k
        exact List.mem_of_mem_erase (by simpa using inside)
      · simpa [same] using inside

omit [DecidableEq ε] in
theorem startGood (queues : Store (Option (Fin n)) ε) (req : ε → Req) (outputLatency : Int) :
    Good (.start (.start queues req outputLatency)) := by
  refine ⟨fun _ => [], ⟨⟨fun _ => .nil, fun _ => List.nodup_nil, by simp, by simp⟩, by simp, .inl (.inl rfl), ?_, by simp⟩, ?_⟩
  · simp [Watch.start, Plug.start, occupied]
  · intro e r given
    simp [Watch.start] at given

theorem trackedCovering (placed : Placed w.plug lists) (whole : r.size.toNat % 4 = 0) (tracked : Tracked w lists e r) :
    Covering w e r := by
  have bound := r.size.isLt
  have within := tracked.within
  refine ⟨?_, within, ?_, tracked.onePort, tracked.ended, ?_⟩
  · exact wordsTile tracked.words (by omega)
  · intro a member
    obtain ⟨j, inside, rfl⟩ := List.getElem_of_mem member
    obtain ⟨i, isWord⟩ := tracked.words j inside
    rw [isWord]
    exact ⟨wordData (by omega), rfl⟩
  · intro i head
    have here : e ∈ lists (some i) := by simp [portAlone placed head]
    obtain ⟨left, port, more⟩ := tracked.taken i here
    refine ⟨placed.woken i (List.ne_nil_of_mem here), more, fun rest time latency => ?_⟩
    obtain ⟨lists', after, fewer, gone, sent, req, done⟩ := eventSpec time latency placed rest head
    have ready : w.plug.phase = .rest ∧ (w.plug.event i).isSome = true := ⟨rest, placed.woken i (List.ne_nil_of_mem here)⟩
    refine ⟨w.note (.event i time latency) (w.plug.eventHandler time i latency), ?_, ?_⟩
    · unfold Watch.step
      simp only [MemPlug.step]
      rw [if_pos ready]
      rfl
    · simp only [Watch.note, head, Function.update_self]
      rw [sent, nextWord left whole more]

/- A request of whole words is covered by what its port sends, and terminated once; another one is never terminated. -/
theorem accessesCover (queues : Store (Option (Fin n)) ε) (req : ε → Req) (outputLatency : Int) {trace} {last : Watch n ε}
    (run : Run Watch.step (fun w => Proper w.plug) (.start (.start queues req outputLatency)) trace last)
    (given : last.given e = some r) (some : 0 < r.size.toNat) :
    (r.size.toNat % 4 = 0 → Covering last e r) ∧ (r.size.toNat % 4 ≠ 0 → last.ended e = 0) := by
  obtain ⟨lists, placed, known⟩ := runInvariant run (startGood queues req outputLatency) (fun _ _ _ => stepGood)
  have followed := known e r given some
  exact ⟨fun whole => trackedCovering placed whole (followed.1 whole), fun broken => (followed.2 broken).ended⟩

end Steps

section Runs

open Machine (reach reachRun)

def coverActions : List (Action 2 Nat) :=
  [.enqueue 0 0, .enqueue 1 0, .event 0 1 5, .event 1 1 5, .event 0 6 5, .terminated 6, .event 1 6 5, .terminated 6]

theorem accessesCoverTwo :
    (reach Watch.step (fun w => Proper w.plug) (Watch.start plugTwo) coverActions).ended 1 = 1 ∧
      Covering (reach Watch.step (fun w => Proper w.plug) (Watch.start plugTwo) coverActions) 1 ⟨0, 0, 8, false⟩ := by
  obtain ⟨trace, run, -⟩ := reachRun Watch.step (fun w => Proper w.plug) (Watch.start plugTwo) coverActions (by decide +kernel)
  exact ⟨by decide +kernel, (accessesCover _ _ _ run (by decide +kernel) (by decide)).1 (by decide)⟩

def plugSix : Plug 1 Nat :=
  .start (.start (fun _ => none) (fun _ => none) (fun _ => none)) (fun _ => ⟨0, 0, 6, false⟩) 0

/- The third access is behind the range of the request, and the port goes on. -/
theorem sizeMissed :
    ∃ trace last, Run Watch.step (fun w => Proper w.plug) (Watch.start plugSix) trace last ∧ last.given 0 = some ⟨0, 0, 6, false⟩ ∧
      (last.served 0).map (fun a => (a.addr, a.size)) = [(0, 4), (4, 2), (8, 4)] ∧ last.ended 0 = 0 ∧
      last.plug.queues.head (some 0) = some 0 ∧ (last.plug.event 0).isSome = true := by
  obtain ⟨trace, run, -⟩ := reachRun Watch.step (fun w => Proper w.plug) (Watch.start plugSix)
    [.enqueue 0 0, .event 0 1 5, .event 0 6 5, .event 0 11 5] (by decide +kernel)
  exact ⟨trace, _, run, by decide +kernel⟩

end Runs

end Gvsoc.MemPlug
