import Gvsoc.RouterRoutes

/-! How the loop of the router ends. A turn makes progress if and only if the size of its piece survives the 32-bit integer,
and a refused request comes back unchanged if and only if its first turn refuses it before it writes to it. -/
namespace Gvsoc.Routing
open Io (IoStatus)
open Bytes (signedNumber)

section Reached

variable (m : Router) (answers : Nat → IoStatus) (r : Req)

def Loop.start (r : Req) : Loop := ⟨r, r.addr, r.size, r.data, none, []⟩

inductive Reaches : Loop → Prop
  | start : Reaches (.start r)
  | turn {s} (before : Reaches s) (more : s.size ≠ 0) (goesOn : (s.turn m answers).2 = false) : Reaches (s.turn m answers).1

def Progresses (s : Loop) : Prop :=
  (s.turn m answers).2 = true ∨ ∃ piece, (s.turn m answers).1.forwards = s.forwards ++ [piece] ∧
    0 < piece.size.toNat ∧ piece.size.toNat ≤ s.size.toNat ∧ (s.turn m answers).1.size.toNat = s.size.toNat - piece.size.toNat

def distance (entry : MapEntry) (isDefault : Bool) (offset size : Word) : Nat :=
  (if isDefault then size else entry.size - (offset - entry.base)).toNat

/- Its low 32 bits are not zero, and are no negative number, unless those of the rest are a positive one. -/
def SizeFits (whole size : Nat) : Prop :=
  whole % 2 ^ 32 ≠ 0 ∧ (whole % 2 ^ 32 < 2 ^ 31 ∨ 0 < size % 2 ^ 32 ∧ size % 2 ^ 32 < 2 ^ 31 ∨ 2 ^ 64 - 2 ^ 31 ≤ size)

def Fitting (offset size : Word) : Prop :=
  ∀ entry isDefault, m.select offset size = some (entry, isDefault) →
    entry.target = .itf false ∨ entry.target ≠ .none ∧ SizeFits (distance entry isDefault offset size) size.toNat

end Reached

section Progress

variable {m : Router} {answers : Nat → IoStatus} {r : Req} {s : Loop} {entry : MapEntry} {isDefault : Bool} {offset size : Word}

theorem iterSizeFits (more : size ≠ 0) :
    0 < (iterSize entry isDefault offset size).toNat ∧ (iterSize entry isDefault offset size).toNat ≤ size.toNat ↔
      SizeFits (distance entry isDefault offset size) size.toNat := by
  have positive : size.toNat ≠ 0 := fun zero => more (BitVec.eq_of_toNat_eq (by simpa using zero))
  have bound := size.isLt
  unfold iterSize distance SizeFits
  generalize (if isDefault then size else entry.size - (offset - entry.base)) = whole
  have number := signedNumber (whole.setWidth 32)
  have other := signedNumber (size.setWidth 32)
  rw [BitVec.toNat_setWidth] at number other
  dsimp only
  split
  · rename_i above
    rw [BitVec.lt_def, number] at above
    rw [other]
    split at above <;> split <;> omega
  · rename_i below
    rw [BitVec.lt_def] at below
    rw [number] at below ⊢
    split at below <;> split <;> omega

theorem forwardProgress (more : s.size ≠ 0) :
    (∃ piece, (s.forward answers entry isDefault).forwards = s.forwards ++ [piece] ∧ 0 < piece.size.toNat ∧
      piece.size.toNat ≤ s.size.toNat ∧ (s.forward answers entry isDefault).size.toNat = s.size.toNat - piece.size.toNat) ↔
      SizeFits (distance entry isDefault s.offset s.size) s.size.toNat := by
  rw [← iterSizeFits more]
  constructor
  · rintro ⟨piece, sent, some, most, -⟩
    have same := List.append_cancel_left sent
    rw [← (List.cons.inj same).1] at some most
    exact ⟨some, most⟩
  · rintro ⟨some, most⟩
    exact ⟨_, rfl, some, most, BitVec.toNat_sub_of_le most⟩

theorem turnForwards (selected : m.select s.offset s.size = some (entry, isDefault))
    (sends : entry.target = .port ∨ entry.target = .itf true) : s.turn m answers = (s.forward answers entry isDefault, false) := by
  rcases sends with target | target <;> simp only [Loop.turn, selected, target]

theorem fittingSelected (selected : m.select s.offset s.size = some (entry, isDefault)) :
    Fitting m s.offset s.size ↔ entry.target = .itf false ∨ entry.target ≠ .none ∧
      SizeFits (distance entry isDefault s.offset s.size) s.size.toNat := by
  constructor
  · exact fun all => all entry isDefault selected
  · rintro fits e d other
    rw [selected] at other
    cases other
    exact fits

theorem turnProgress (more : s.size ≠ 0) : Progresses m answers s ↔ Fitting m s.offset s.size := by
  cases selected : m.select s.offset s.size with
  | none => simp [Progresses, Fitting, Loop.turn, selected]
  | some choice =>
      obtain ⟨entry, isDefault⟩ := choice
      rw [fittingSelected selected, Progresses]
      cases target : entry.target with
      | port =>
          rw [turnForwards selected (.inl target)]
          simpa using forwardProgress more
      | itf bound =>
          cases bound with
          | true =>
              rw [turnForwards selected (.inr target)]
              simpa using forwardProgress more
          | false => simp [Loop.turn, selected, target]
      | none => simp [Loop.turn, selected, target, Loop.skip]

theorem turnShorter (progress : Progresses m answers s) (goesOn : (s.turn m answers).2 = false) :
    (s.turn m answers).1.size.toNat < s.size.toNat := by
  rcases progress with returns | ⟨piece, -, some, most, rest⟩
  · rw [goesOn] at returns
    contradiction
  · omega

theorem runEnds (progress : ∀ s, Reaches m answers r s → s.size ≠ 0 → Progresses m answers s) (reached : Reaches m answers r s) :
    ∃ fuel, (s.run m answers r fuel).isSome = true := by
  induction count : s.size.toNat using Nat.strongRecOn generalizing s with
  | ind n rec =>
      by_cases finished : s.size = 0
      · refine ⟨0, ?_⟩
        unfold Loop.run
        simp [finished]
      · cases goesOn : (s.turn m answers).2 with
        | true =>
            refine ⟨1, ?_⟩
            have split : s.turn m answers = ((s.turn m answers).1, true) := Prod.ext rfl goesOn
            unfold Loop.run
            rw [if_neg finished]
            dsimp only
            rw [split]
            rfl
        | false =>
            have shorter := turnShorter (progress s reached finished) goesOn
            obtain ⟨fuel, ends⟩ := rec _ (count ▸ shorter) (.turn reached finished goesOn) rfl
            refine ⟨fuel + 1, ?_⟩
            have split : s.turn m answers = ((s.turn m answers).1, false) := Prod.ext rfl goesOn
            unfold Loop.run
            rw [if_neg finished]
            dsimp only
            rw [split]
            exact ends

/- Every turn makes progress, and the loop ends, if and only if the sizes fit at every turn. -/
theorem loopProgresses (m : Router) (answers : Nat → IoStatus) (r : Req) :
    ((∀ s, Reaches m answers r s → s.size ≠ 0 → Progresses m answers s) ∧ ∃ fuel, (m.req answers fuel r).isSome = true) ↔
      ∀ s, Reaches m answers r s → s.size ≠ 0 → Fitting m s.offset s.size := by
  constructor
  · rintro ⟨progress, -⟩ s reached more
    exact (turnProgress more).mp (progress s reached more)
  · intro fitting
    have progress (s : Loop) (reached : Reaches m answers r s) (more : s.size ≠ 0) : Progresses m answers s :=
      (turnProgress more).mpr (fitting s reached more)
    exact ⟨progress, runEnds progress .start⟩

def wide : List MapEntry := [⟨0, 0x100000000, 0, 0, .port⟩]

/- At its base nothing is forwarded, for ever. -/
theorem wideStuck : ¬ ∃ fuel, ((Router.build wide).req accept fuel ⟨0, 4, 0, 0⟩).isSome = true := by
  rintro ⟨fuel, ends⟩
  have never : (Router.build wide).req accept fuel ⟨0, 4, 0, 0⟩ = none := by
    refine stuck fuel (by decide) (by decide) fun entry isDefault selected => ?_
    have first : (Router.build wide).select 0 4 = some (⟨0, 0x100000000, 0, 0, .port⟩, false) := by decide
    rw [first] at selected
    cases selected
    decide
  rw [never] at ends
  contradiction

end Progress

section Refused

variable {m : Router} {answers : Nat → IoStatus} {r : Req} {s : Loop} {entry : MapEntry} {isDefault : Bool} {fuel : Nat} {ret : Returned}

theorem dataSame {offset : Word} (same : r.data + (offset - r.addr) = r.data) : offset = r.addr := by
  have zero : offset - r.addr = 0 := by
    calc offset - r.addr = r.data + (offset - r.addr) - r.data := by ring
      _ = 0 := by rw [same]; ring
  calc offset = offset - r.addr + r.addr := by ring
    _ = r.addr := by rw [zero]; ring

theorem historyFirst (history : History m r s) (data : s.data = r.data) : s.offset = r.addr ∧ s.size = r.size := by
  have offset : s.offset = r.addr := dataSame (history.data.symm.trans data)
  refine ⟨offset, ?_⟩
  rw [history.rest, offset]
  ring

/- What the request has become when the loop tests its size. A refused piece has left an argument on the stack, and a request
that is as it came has not been written, or its last piece was the whole of it. -/
structure Written (m : Router) (r : Req) (s : Loop) : Prop where
  history : History m r s
  args : r.args ≤ s.req.args
  refused : s.result = some .invalid → r.args < s.req.args
  fresh : s.req = r → s = .start r ∨ s.size = 0

theorem turnWritten (written : Written m r s) (goesOn : (s.turn m answers).2 = false) : Written m r (s.turn m answers).1 := by
  have history := turnHistory written.history goesOn
  have args := written.args
  obtain ⟨entry, isDefault, -, ⟨-, next⟩ | ⟨-, next⟩⟩ := turnCases goesOn
  · rw [next] at history ⊢
    refine ⟨history, ?_, ?_, ?_⟩
    · dsimp only [Loop.forward]
      split <;> omega
    · intro refused
      have answer : answers s.forwards.length = .invalid := Option.some.inj refused
      simp only [Loop.forward, answer, reduceCtorEq, if_false]
      omega
    · intro same
      right
      have data : s.data = r.data := congrArg Req.data same
      have whole : iterSize entry isDefault s.offset s.size = r.size := congrArg Req.size same
      show s.size - iterSize entry isDefault s.offset s.size = 0
      rw [whole, (historyFirst written.history data).2, sub_self]
  · rw [next] at history ⊢
    refine ⟨history, args, (by rintro ⟨⟩), fun same => ?_⟩
    right
    have data : s.data = r.data := congrArg Req.data same
    have whole : iterSize entry isDefault s.offset s.size = r.size := congrArg Req.size same
    show s.size - iterSize entry isDefault s.offset s.size = 0
    rw [whole, (historyFirst written.history data).2, sub_self]

theorem reachesWritten (reached : Reaches m answers r s) : Written m r s := by
  induction reached with
  | start => exact ⟨startHistory m r, Nat.le_refl _, (by rintro ⟨⟩), fun _ => .inl rfl⟩
  | turn before more goesOn rec => exact turnWritten rec goesOn

/- The first turn returns, and has written nothing new: there is no entry, or an unconnected one that takes the whole request
at its own address. -/
def Harmless (m : Router) (r : Req) : Prop :=
  m.select r.addr r.size = none ∨ ∃ entry isDefault, m.select r.addr r.size = some (entry, isDefault) ∧ entry.target = .itf false ∧
    iterSize entry isDefault r.addr r.size = r.size ∧ entry.translate r.addr = r.addr

theorem harmlessTurn (harmless : Harmless m r) :
    ((Loop.start r).turn m answers).2 = true ∧ ((Loop.start r).turn m answers).1.req = r := by
  rcases harmless with unmapped | ⟨entry, isDefault, selected, target, whole, same⟩
  · simp [Loop.turn, Loop.start, unmapped]
  · simp [Loop.turn, Loop.start, selected, target, whole, same]

theorem harmlessFirst (harmless : Harmless m r) (reached : Reaches m answers r s) : s = .start r := by
  induction reached with
  | start => rfl
  | turn before more goesOn rec =>
      rw [rec, (harmlessTurn harmless).1] at goesOn
      contradiction

theorem returnHarmless (reached : Reaches m answers r s) (more : s.size ≠ 0) (returns : (s.turn m answers).2 = true)
    (intact : (s.turn m answers).1.req = r) : Harmless m r := by
  have written := reachesWritten reached
  unfold Loop.turn at returns intact
  cases selected : m.select s.offset s.size with
  | none =>
      simp only [selected] at intact
      rcases written.fresh intact with first | finished
      · rw [first] at selected
        exact .inl selected
      · contradiction
  | some choice =>
      obtain ⟨entry, isDefault⟩ := choice
      simp only [selected] at returns intact
      cases target : entry.target with
      | port => simp [target] at returns
      | none => simp [target] at returns
      | itf bound =>
          cases bound with
          | true => simp [target] at returns
          | false =>
              simp only [target] at intact
              have data : s.data = r.data := congrArg Req.data intact
              obtain ⟨offset, size⟩ := historyFirst written.history data
              have whole : iterSize entry isDefault s.offset s.size = r.size := congrArg Req.size intact
              have addr : entry.translate s.offset = r.addr := congrArg Req.addr intact
              rw [offset, size] at selected whole
              rw [offset] at addr
              exact .inr ⟨entry, isDefault, selected, target, whole, addr⟩

theorem finishIntact (reached : Reaches m answers r s) (invalid : s.result = some .invalid) : s.req = r ↔ Harmless m r := by
  have args := (reachesWritten reached).refused invalid
  refine iff_of_false (fun same => ?_) (fun harmless => ?_)
  · rw [same] at args
    omega
  · rw [harmlessFirst harmless reached] at invalid
    cases invalid

theorem runIntact (reached : Reaches m answers r s) (done : s.run m answers r fuel = some ret) (invalid : ret.result = some .invalid) :
    ret.req = r ↔ Harmless m r := by
  induction fuel using Nat.strongRecOn generalizing s with
  | ind fuel rec =>
      rcases runCases done with ⟨-, result, same, -⟩ | ⟨more, returns, -, same⟩ | ⟨more, goesOn, rest, fewer, later⟩
      · have refused : s.result = some .invalid := result.symm.trans invalid
        rw [same (by simp [refused])]
        exact finishIntact reached refused
      · rw [same]
        constructor
        · intro intact
          exact returnHarmless reached more returns intact
        · intro harmless
          rw [harmlessFirst harmless reached]
          exact (harmlessTurn harmless).2
      · exact rec rest fewer (.turn reached more goesOn) later

/- A refused request comes back as it was if and only if its first turn refuses it without writing anything new. -/
theorem refusedIntact (m : Router) (answers : Nat → IoStatus) (r : Req) (done : m.req answers fuel r = some ret)
    (invalid : ret.result = some .invalid) : ret.req = r ↔ Harmless m r :=
  runIntact .start done invalid

/- An address without an entry. -/
theorem refusedIntactUnmapped :
    (((Router.build wide).req accept 1 ⟨0x200000000, 4, 0x1000, 3⟩).map Returned.req) = some ⟨0x200000000, 4, 0x1000, 3⟩ := by
  have done : (Router.build wide).req accept 1 ⟨0x200000000, 4, 0x1000, 3⟩ = some ⟨some .invalid, ⟨0x200000000, 4, 0x1000, 3⟩, []⟩ := by decide
  rw [done, Option.map_some, (refusedIntact (Router.build wide) accept _ done rfl).mpr (.inl (by decide))]

def refuse : Nat → IoStatus := fun _ => .invalid

def moved : List MapEntry := [⟨0x1000, 0x1000, 0x1000, 0, .port⟩]

theorem refusedWritten : (Router.build moved).req refuse 2 ⟨0x1010, 4, 0x8000, 1⟩ =
      some ⟨some .invalid, ⟨0x10, 4, 0x8000, 2⟩, [⟨0x1010, ⟨0x1000, 0x1000, 0x1000, 0, .port⟩, false, 0x10, 4, 0x8000⟩]⟩ ∧
    (⟨0x10, 4, 0x8000, 2⟩ : Req) ≠ ⟨0x1010, 4, 0x8000, 1⟩ := by
  decide

end Refused

end Gvsoc.Routing
