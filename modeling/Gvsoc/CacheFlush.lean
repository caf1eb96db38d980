import Gvsoc.InsnSteady
import Gvsoc.Runs

/-! What a flush of the instruction cache leaves of the pointers to instructions, and of the checks that the hardware loops
have put at their ends. -/
namespace Gvsoc.InsnBlocks

structure Cache.Shows (c : Cache) (p : Option Ref) (addr : Option Addr) : Prop where
  linked : ∀ r ∈ p, c.Linked r
  addr : (p.map fun r => (c.insn r).addr) = addr

namespace Core

structure Sound (s : Core) : Prop where
  cache : s.cache.Sound
  current : ∀ r ∈ s.currentInsn, s.cache.Linked r
  prev : ∀ r ∈ s.prevInsn, s.cache.Linked r
  stall : ∀ r ∈ s.stallInsn, s.cache.Linked r
  prefetch : ∀ r ∈ s.prefetchInsn, s.cache.Linked r
  ends : ∀ i, ∀ r ∈ s.hwloopEndInsn i, s.cache.Linked r

end Core

section Pointers

variable {P : Insn → Prop} {c c' : Cache} {s : Core} {p : Option Ref} {addr : Addr}

theorem showsSteady {a : Option Addr} (steady : Steady P c c') (shows : c.Shows p a) : c'.Shows p a := by
  refine ⟨fun r member => steady.linked r (shows.linked r member), ?_⟩
  rw [← shows.addr]
  cases p with
  | none => rfl
  | some r => exact congrArg some (steady.addr r (shows.linked r rfl))

theorem gotShows {r : Ref} {pc : Addr} (got : Got P c pc c' r) (even : pc &&& ~~~1#32 = pc) : c'.Shows (some r) (some pc) := by
  refine ⟨fun other member => ?_, ?_⟩
  · cases member
    exact got.linked
  · exact congrArg some (got.addr.trans even)

theorem showsNone (c : Cache) : c.Shows none none := ⟨fun r never => by simp at never, rfl⟩

theorem againSteady (sound : c.Sound) (p : Option Ref) (even : addr &&& ~~~1#32 = addr) :
    Steady Unchecked c (c.again p addr).1 ∧ (c.again p addr).1.Shows (c.again p addr).2 (p.map fun _ => addr) := by
  cases p with
  | none => exact ⟨steadyRefl sound, showsNone c⟩
  | some r =>
      have got := getUnchecked sound addr
      exact ⟨got.steady, gotShows got even⟩

theorem currentAgainSteady (sound : s.cache.Sound) (config : Config) (opcode : Opcode) (even : addr &&& ~~~1#32 = addr) :
    ∃ cache q, s.currentAgain config addr opcode = { s with cache := cache, currentInsn := q } ∧ Steady Unchecked s.cache cache ∧
      cache.Shows q (s.currentInsn.map fun _ => addr) := by
  unfold Core.currentAgain
  cases current : s.currentInsn with
  | none =>
      have same : s = { s with currentInsn := none } := by rw [← current]
      exact ⟨s.cache, none, same, steadyRefl sound, showsNone _⟩
  | some r =>
      have got := getUnchecked sound addr
      have marked := changeSteady (f := fun insn => { insn with opcode := opcode, fetched := true }) got.steady.sound
        (s.cache.insnCacheGet addr).2 (fun _ => rfl) fun _ none => none
      have decoded := steadyTrans marked (decodeSteady config s.traced marked.sound (s.cache.insnCacheGet addr).2)
      exact ⟨_, _, rfl, steadyTrans got.steady decoded, showsSteady decoded (gotShows got even)⟩

theorem endAgainSteady (sound : s.cache.Sound) (ready : s.cache.All Ready) (i : Fin 2) (even : addr &&& ~~~1#32 = addr) :
    ∃ cache q, s.endAgain i addr = { s with cache := cache, hwloopEndInsn := Function.update s.hwloopEndInsn i q } ∧
      Steady Ready s.cache cache ∧ cache.Shows q ((s.hwloopEndInsn i).map fun _ => addr) ∧
      (∀ r ∈ q, Checked (cache.insn r)) ∧
      ∀ r, s.cache.Linked r → Checked (s.cache.insn r) → Checked (cache.insn r) := by
  unfold Core.endAgain
  cases own : s.hwloopEndInsn i with
  | none =>
      have same : s = { s with hwloopEndInsn := Function.update s.hwloopEndInsn i none } := by rw [← own, Function.update_eq_self]
      exact ⟨s.cache, none, same, steadyRefl sound, showsNone _, fun r never => by simp at never, fun _ _ before => before⟩
  | some r =>
      have got := getReady sound addr
      have set := setEndSteady got.steady.sound (s.cache.insnCacheGet addr).2
      obtain ⟨checked, others⟩ := setEndChecked (got.steady.all ready _ got.linked)
      refine ⟨_, _, rfl, steadyTrans got.steady set, showsSteady set (gotShows got even), fun r' member => ?_, fun r' linked before => ?_⟩
      · cases member
        exact checked
      · refine others r' ?_
        rw [got.same r' linked]
        exact before

structure Looks (c c' : Cache) : Prop where
  steady : Steady Ready c c'
  same : ∀ r, c.Linked r → c'.insn r = c.insn r

theorem setVectorsLooks (sound : s.cache.Sound) (ids : List Nat) :
    ∃ cache vectors, ids.foldl Core.setVector s = { s with cache := cache, vectors := vectors } ∧ Looks s.cache cache := by
  induction ids generalizing s with
  | nil => exact ⟨s.cache, s.vectors, rfl, steadyRefl sound, fun _ _ => rfl⟩
  | cons i rest rec =>
      have got := getReady sound (s.vectorBase + BitVec.ofNat 32 (i * 4))
      obtain ⟨cache, vectors, same, looks⟩ := rec (s := s.setVector i) got.steady.sound
      refine ⟨cache, vectors, same, steadyTrans got.steady looks.steady, fun r linked => ?_⟩
      exact (looks.same r (got.steady.linked r linked)).trans (got.same r linked)

theorem irqFlushLooks (sound : s.cache.Sound) (config : Config) :
    ∃ cache vectors debugHandler, s.issIrqFlush config =
      { s with cache := cache, vectors := vectors, debugHandler := debugHandler } ∧ Looks s.cache cache := by
  obtain ⟨cache, vectors, same, looks⟩ := setVectorsLooks sound (List.range 32 ++ List.range' 32 3)
  unfold Core.issIrqFlush
  dsimp only
  rw [same]
  cases config.debugHandler with
  | none => exact ⟨cache, vectors, s.debugHandler, rfl, looks⟩
  | some addr =>
      have got := getReady looks.steady.sound addr
      refine ⟨_, vectors, _, rfl, steadyTrans looks.steady got.steady, fun r linked => ?_⟩
      exact (got.same r (looks.steady.linked r linked)).trans (looks.same r linked)

theorem addrOfEven (sound : s.cache.Sound) (linked : ∀ r ∈ p, s.cache.Linked r) (even : addr &&& ~~~1#32 = addr) :
    (s.addrOf p).getD addr &&& ~~~1#32 = (s.addrOf p).getD addr := by
  cases p with
  | none => exact even
  | some r => exact addrEven sound (linked r rfl)

theorem addrOfMap (s : Core) (p : Option Ref) (addr : Addr) : (p.map fun _ => (s.addrOf p).getD addr) = s.addrOf p := by
  cases p <;> rfl

end Pointers

section Found

variable {s : Core}

structure Found (s t : Core) (currentAddr prevAddr stallAddr : Addr) (endAddr : Fin 2 → Addr) : Prop where
  cache : t.cache.Sound
  current : t.cache.Shows t.currentInsn (s.currentInsn.map fun _ => currentAddr)
  prev : t.cache.Shows t.prevInsn (s.prevInsn.map fun _ => prevAddr)
  stall : t.cache.Shows t.stallInsn (s.stallInsn.map fun _ => stallAddr)
  prefetch : t.cache.Shows t.prefetchInsn (s.prefetchInsn.map fun _ => stallAddr)
  ends : ∀ i, t.cache.Shows (t.hwloopEndInsn i) ((s.hwloopEndInsn i).map fun _ => endAddr i)
  checked : ∀ i, ∀ r ∈ t.hwloopEndInsn i, Checked (t.cache.insn r)

theorem findAgainFound (sound : s.cache.Sound) (unchecked : s.cache.All Unchecked) (config : Config) (opcode : Opcode)
    {currentAddr prevAddr stallAddr : Addr} {endAddr : Fin 2 → Addr} (currentEven : currentAddr &&& ~~~1#32 = currentAddr)
    (prevEven : prevAddr &&& ~~~1#32 = prevAddr) (stallEven : stallAddr &&& ~~~1#32 = stallAddr)
    (endEven : ∀ i, endAddr i &&& ~~~1#32 = endAddr i) :
    Found s (s.findAgain config opcode currentAddr prevAddr stallAddr endAddr) currentAddr prevAddr stallAddr endAddr := by
  obtain ⟨c1, current, same, first, shows1⟩ := currentAgainSteady sound config opcode currentEven
  obtain ⟨second, shows2⟩ := againSteady first.sound s.prevInsn prevEven
  obtain ⟨third, shows3⟩ := againSteady second.sound s.stallInsn stallEven
  obtain ⟨fourth, shows4⟩ := againSteady third.sound s.prefetchInsn stallEven
  unfold Core.findAgain
  rw [same]
  dsimp only [Core.prevAgain, Core.stallAgain, Core.prefetchAgain]
  generalize c1.again s.prevInsn prevAddr = found2 at *
  generalize found2.1.again s.stallInsn stallAddr = found3 at *
  generalize found3.1.again s.prefetchInsn stallAddr = found4 at *
  have ready : found4.1.All Ready := fun r linked => .inl (fourth.all (third.all (second.all (first.all unchecked))) r linked)
  -- The two ends are different pointers, or the same one.
  obtain ⟨c5, end0, same5, fifth, shows5, checked5, -⟩ := endAgainSteady
    (s := ⟨found4.1, s.prefetcherAddr, s.decodePrefetcherAddr, current, found2.2, found3.2, found4.2, s.hwloopEndInsn, s.vectors,
      s.vectorBase, s.debugHandler, s.traced⟩) fourth.sound ready 0 (endEven 0)
  rw [same5]
  obtain ⟨c6, end1, same6, sixth, shows6, checked6, others6⟩ := endAgainSteady
    (s := ⟨c5, s.prefetcherAddr, s.decodePrefetcherAddr, current, found2.2, found3.2, found4.2,
      Function.update s.hwloopEndInsn 0 end0, s.vectors, s.vectorBase, s.debugHandler, s.traced⟩)
    fifth.sound (fifth.all ready) 1 (endEven 1)
  rw [same6]
  obtain ⟨c7, vectors, debugHandler, same7, looks⟩ := irqFlushLooks
    (s := ⟨c6, s.prefetcherAddr, s.decodePrefetcherAddr, current, found2.2, found3.2, found4.2,
      Function.update (Function.update s.hwloopEndInsn 0 end0) 1 end1, s.vectors, s.vectorBase, s.debugHandler, s.traced⟩)
    sixth.sound config
  rw [same7]
  have later := steadyTrans fifth (steadyTrans sixth looks.steady)
  have fourthLater := showsSteady later shows4
  have thirdLater := showsSteady later (showsSteady fourth shows3)
  have secondLater := showsSteady later (showsSteady (steadyTrans third fourth) shows2)
  have firstLater := showsSteady later (showsSteady (steadyTrans second (steadyTrans third fourth)) shows1)
  refine ⟨looks.steady.sound, firstLater, secondLater, thirdLater, fourthLater, fun i => ?_, fun i r member => ?_⟩
  · match i with
    | 0 => exact showsSteady (steadyTrans sixth looks.steady) shows5
    | 1 => exact showsSteady looks.steady shows6
  · match i with
    | 0 =>
        have linked := shows5.linked r member
        rw [looks.same r (sixth.linked r linked)]
        exact others6 r linked (checked5 r member)
    | 1 =>
        rw [looks.same r (shows6.linked r member)]
        exact checked6 r member

end Found

section Law

variable {s : Core}

structure Kept (s t : Core) : Prop where
  current : t.addrOf t.currentInsn = s.addrOf s.currentInsn
  prev : t.addrOf t.prevInsn = s.addrOf s.prevInsn
  stall : t.addrOf t.stallInsn = s.addrOf s.stallInsn
  prefetch : t.addrOf t.prefetchInsn = s.addrOf s.prefetchInsn
  ends : ∀ i, t.addrOf (t.hwloopEndInsn i) = s.addrOf (s.hwloopEndInsn i)
  checked : ∀ i, ∀ r ∈ t.hwloopEndInsn i, Checked (t.cache.insn r)

def Alone (s : Core) : Prop := ∀ stall ∈ s.addrOf s.stallInsn, ∀ prefetch ∈ s.addrOf s.prefetchInsn, stall = prefetch

theorem flushFound (sound : s.Sound) (config : Config) : Found s (s.issCacheFlush config) ((s.addrOf s.currentInsn).getD 0)
    ((s.addrOf s.prevInsn).getD 0) ((s.addrOf s.prefetchInsn).getD ((s.addrOf s.stallInsn).getD 0))
    fun i => (s.addrOf (s.hwloopEndInsn i)).getD 0 := by
  obtain ⟨flushed, unchecked⟩ := flushCacheSteady sound.cache
  have zero : (0 : Addr) &&& ~~~1#32 = 0 := by decide
  have stallEven := addrOfEven sound.cache sound.stall zero
  unfold Core.issCacheFlush
  dsimp only
  generalize s.cache.flushCache = cache at flushed unchecked ⊢
  have found := findAgainFound (s := { s with prefetcherAddr := -1, decodePrefetcherAddr := -1, cache := cache }) flushed.sound
    unchecked config ((s.currentInsn.map fun r => (s.cache.insn r).opcode).getD 0) (addrOfEven sound.cache sound.current zero)
    (addrOfEven sound.cache sound.prev zero) (addrOfEven sound.cache sound.prefetch stallEven)
    fun i => addrOfEven sound.cache (sound.ends i) zero
  exact ⟨found.cache, found.current, found.prev, found.stall, found.prefetch, found.ends, found.checked⟩

theorem stallAddr (s : Core) : (s.stallInsn.map fun _ => (s.addrOf s.prefetchInsn).getD ((s.addrOf s.stallInsn).getD 0)) =
    s.addrOf s.stallInsn ↔ Alone s := by
  unfold Alone Core.addrOf
  cases s.stallInsn with
  | none => exact iff_of_true rfl fun stall never => by simp at never
  | some stall =>
      cases s.prefetchInsn with
      | none => exact iff_of_true rfl fun _ _ prefetch never => by simp at never
      | some prefetch => simp [eq_comm]

theorem keptAlone (sound : s.Sound) (config : Config) (kept : Kept s (s.issCacheFlush config)) : Alone s :=
  (stallAddr s).mp ((flushFound sound config).stall.addr.symm.trans kept.stall)

/- A flush keeps the pipeline, if and only if the stalled instruction and the one that is fetched are not at two addresses. -/
theorem cacheFlushKeeps (sound : s.Sound) (config : Config) : Kept s (s.issCacheFlush config) ↔ Alone s := by
  have found := flushFound sound config
  refine ⟨keptAlone sound config, fun alone => ⟨?_, ?_, ?_, ?_, fun i => ?_, found.checked⟩⟩
  · exact found.current.addr.trans (addrOfMap s _ 0)
  · exact found.prev.addr.trans (addrOfMap s _ 0)
  · exact found.stall.addr.trans ((stallAddr s).mpr alone)
  · exact found.prefetch.addr.trans (addrOfMap s _ _)
  · exact (found.ends i).addr.trans (addrOfMap s _ 0)

end Law

section Reached

variable {P : Insn → Prop} {s : Core} {config : Config}

theorem movedSound {cache : Cache} (sound : s.Sound) (steady : Steady P s.cache cache) : Core.Sound { s with cache := cache } :=
  ⟨steady.sound, fun r member => steady.linked r (sound.current r member), fun r member => steady.linked r (sound.prev r member),
    fun r member => steady.linked r (sound.stall r member), fun r member => steady.linked r (sound.prefetch r member),
    fun i r member => steady.linked r (sound.ends i r member)⟩

theorem setCurrentSound (sound : s.Sound) (addr : Addr) : (s.setCurrent addr).Sound := by
  have got := getUnchecked sound.cache addr
  have moved := movedSound sound got.steady
  refine ⟨moved.cache, fun r member => ?_, moved.prev, moved.stall, moved.prefetch, moved.ends⟩
  cases member
  exact got.linked

theorem fetchedSound (sound : s.Sound) (p : Option Ref) (opcode : Opcode) : (s.fetched config p opcode).Sound := by
  unfold Core.fetched
  cases p with
  | none => exact sound
  | some r =>
      have marked := changeSteady (f := fun insn => { insn with opcode := opcode, fetched := true }) sound.cache r
        (fun _ => rfl) fun _ none => none
      exact movedSound sound (steadyTrans marked (decodeSteady config s.traced marked.sound r))

theorem hwloopSetEndSound (sound : s.Sound) (i : Fin 2) (addr : Addr) : (s.hwloopSetEnd i addr).Sound := by
  have got := getGot (P := fun _ => True) (fun _ _ => trivial) sound.cache addr
  have set := modifySteady (P := fun _ => True) (f := Insn.setCheck) got.steady.sound (s.cache.insnCacheGet addr).2 setCheckAddr
    fun _ _ => trivial
  have moved := movedSound sound (steadyTrans got.steady set)
  refine ⟨moved.cache, moved.current, moved.prev, moved.stall, moved.prefetch, fun j r member => ?_⟩
  change r ∈ Function.update s.hwloopEndInsn i (some (s.cache.insnCacheGet addr).2) j at member
  by_cases own : j = i
  · subst own
    rw [Function.update_self] at member
    cases member
    exact set.linked _ got.linked
  · rw [Function.update_of_ne own] at member
    exact moved.ends j r member

theorem flushSound (sound : s.Sound) : (s.issCacheFlush config).Sound := by
  have found := flushFound sound config
  exact ⟨found.cache, found.current.linked, found.prev.linked, found.stall.linked, found.prefetch.linked,
    fun i => (found.ends i).linked⟩

theorem stepSound (a : Action) (sound : s.Sound) : (step config s a).Sound := by
  cases a with
  | setCurrent addr => exact setCurrentSound sound addr
  | fetched opcode => exact fetchedSound sound _ opcode
  | waits => exact ⟨sound.cache, sound.current, sound.prev, sound.stall, sound.current, sound.ends⟩
  | resumed opcode => exact fetchedSound sound _ opcode
  | executed next =>
      have moved : Core.Sound { s with prevInsn := s.currentInsn } :=
        ⟨sound.cache, sound.current, sound.current, sound.stall, sound.prefetch, sound.ends⟩
      exact setCurrentSound moved next
  | stalled => exact ⟨sound.cache, sound.current, sound.prev, sound.current, sound.prefetch, sound.ends⟩
  | hwloopSetEnd i addr => exact hwloopSetEndSound sound i addr
  | flush => exact flushSound sound

theorem openedSound (heap : Nat → Block) (traced : Bool) : (Core.opened heap traced).Sound := by
  have never : ∀ r : Ref, r ∉ (none : Option Ref) := fun r member => by simp at member
  refine ⟨fun k b member => ?_, fun r member => ?_, fun r member => ?_, fun r member => ?_, fun r member => ?_, fun i r member => ?_⟩
  · exact absurd member List.not_mem_nil
  all_goals exact absurd member (never r)

theorem runSound (heap : Nat → Block) (traced : Bool) (actions : List Action) :
    (Runs.run (step config) (Core.opened heap traced) actions).Sound :=
  Runs.runInvariant (fun _ a sound => stepSound a sound) (openedSound heap traced) actions

/- `addi x0, x0, 0`, which has no register of its own to wait for. -/
def nop : Item :=
  { handler := .exec 0, fastHandler := .exec 1, resource := false, size := 4, latency := 0, inRegs := fun _ => [0]
    outLatencies := fun _ => [], nextAt := fun _ => none, branchAt := fun _ => none }

def nops : Config := ⟨fun opcode => if opcode = 0x13 then some nop else none, 2, none⟩

def anyInsn : Insn :=
  { addr := 0, opcode := 0, fetched := false, fastHandler := .issDecodePc, handler := .issDecodePc, resourceHandler := .issDecodePc
    hwloopHandler := none, stallHandler := .issDecodePc, stallFastHandler := .issDecodePc, savedHandler := .issDecodePc, size := 0
    next := none, branch := none, latency := 0, inputLatency := 0, inputLatencyReg := -1 }

def anyHeap : Nat → Block := fun _ => ⟨0, fun _ => anyInsn, false⟩

def after (actions : List Action) : Core := Runs.run (step nops) (Core.opened anyHeap false) actions

/- The instruction at 0x100 waits for its data while a loop ends at it. -/
def looping : List Action :=
  [.setCurrent 0x100, .fetched 0x13, .hwloopSetEnd 0 0x100, .stalled, .executed 0x104, .fetched 0x13]

theorem afterSound (actions : List Action) : (after actions).Sound := runSound anyHeap false actions

theorem cacheFlushKeepsLoop : Kept (after looping) ((after looping).issCacheFlush nops) := by
  have unset : (after looping).prefetchInsn = none := rfl
  refine (cacheFlushKeeps (afterSound looping) nops).mpr fun stall _ prefetch member => ?_
  rw [Core.addrOf, unset] at member
  cases member

def waiting : List Action := looping ++ [.setCurrent 0x200, .waits]

theorem stallMoved : ¬Kept (after waiting) ((after waiting).issCacheFlush nops) := by
  intro kept
  have alone := keptAlone (afterSound waiting) nops kept
  have stall : (after waiting).addrOf (after waiting).stallInsn = some 0x100 := by decide +kernel
  have prefetch : (after waiting).addrOf (after waiting).prefetchInsn = some 0x200 := by decide +kernel
  exact absurd (alone _ stall _ prefetch) (by decide)

end Reached

end Gvsoc.InsnBlocks
