import Gvsoc.PortBinding

/-! A wire whose master port is bound to several slave ports. The bindings after the first one get a master port of their own in a list
that begins at the one of the component; only the port of the component has a stub for another clock. -/
namespace Gvsoc.WireFanout

variable {σ κ : Type}

/- The handler and its context belong to a slave port. `remotePort` is the slave port that was bound last. -/
structure WireMaster (σ : Type) where
  remotePort : Option σ
  slavePort : Option σ
  syncMeth : Option σ
  next : List σ
  freqCross : Bool
  deriving DecidableEq, Repr

/- What happens when a value is sent: the engine of a slave port is brought up to date, or its handler is called. -/
inductive Event (σ : Type) where
  | clockSync (slave : σ)
  | sync (slave : σ)
  deriving DecidableEq, Repr

namespace WireMaster

def build : WireMaster σ := ⟨none, none, none, [], false⟩

variable (m : WireMaster σ)

def bindTo (slave : σ) : WireMaster σ :=
  let m := { m with remotePort := some slave }
  if m.slavePort.isSome then { m with next := slave :: m.next } else { m with syncMeth := some slave }

def bindBack (slave : σ) : WireMaster σ := { m with slavePort := some slave }

def bindSlaves (slaves : List σ) : WireMaster σ := slaves.foldl (fun m slave => (m.bindTo slave).bindBack slave) m

/- The clocks of the component and of the port that was bound last are compared; a component may have none. -/
def finalize [DecidableEq κ] (clock : Option κ) (clockOf : σ → Option κ) : WireMaster σ :=
  match m.remotePort with
  | some remote => if clock ≠ clockOf remote then { m with freqCross := true } else m
  | none => m

def syncNext : List σ → List (Event σ)
  | [] => []
  | slave :: rest => syncNext rest ++ [.sync slave]

def stub (clockOf : σ → Option κ) : List (Event σ) :=
  match m.remotePort with
  | some remote => if (clockOf remote).isSome then [.clockSync remote] else []
  | none => []

def sync (clockOf : σ → Option κ) : Option (List (Event σ)) :=
  m.syncMeth.map fun slave => syncNext m.next ++ ((if m.freqCross then m.stub clockOf else []) ++ [.sync slave])

end WireMaster

section Fanout

variable {slaves : List σ} {first : σ}

theorem syncNextReverse (next : List σ) : WireMaster.syncNext next = next.reverse.map Event.sync := by
  induction next with
  | nil => rfl
  | cons slave rest ih => simp [WireMaster.syncNext, ih]

theorem bindSlavesMore (m : WireMaster σ) (bound : m.slavePort.isSome = true) (slaves : List σ) :
    m.bindSlaves slaves = { m with
      remotePort := (slaves.getLast?).or m.remotePort
      slavePort := (slaves.getLast?).or m.slavePort
      next := slaves.reverse ++ m.next } := by
  induction slaves generalizing m with
  | nil => rfl
  | cons slave rest ih =>
      have one : (m.bindTo slave).bindBack slave =
          { m with remotePort := some slave, slavePort := some slave, next := slave :: m.next } := by
        unfold WireMaster.bindTo WireMaster.bindBack
        dsimp only
        rw [if_pos bound]
      have later := ih { m with remotePort := some slave, slavePort := some slave, next := slave :: m.next } rfl
      unfold WireMaster.bindSlaves at later ⊢
      rw [List.foldl_cons, one, later]
      cases last : rest.getLast? with
      | none => simp [List.getLast?_cons, last]
      | some s => simp [List.getLast?_cons, last]

theorem bindSlavesAll (first : σ) (slaves : List σ) : WireMaster.build.bindSlaves (first :: slaves) =
    { remotePort := (first :: slaves).getLast?
      slavePort := (first :: slaves).getLast?
      syncMeth := some first
      next := slaves.reverse
      freqCross := false } := by
  have one : (WireMaster.build.bindTo first).bindBack first = ⟨some first, some first, some first, [], false⟩ := rfl
  have later := bindSlavesMore ⟨some first, some first, some first, [], false⟩ rfl slaves
  unfold WireMaster.bindSlaves at later ⊢
  rw [List.foldl_cons, one, later]
  cases last : slaves.getLast? with
  | none => simp [List.getLast?_cons, last]
  | some s => simp [List.getLast?_cons, last]

variable [DecidableEq κ]

/- The slave ports are called in the order of their bindings, but the one that was bound first comes last. Before it the clock of the one
that was bound last is brought up to date, when that is not the clock of the component. -/
theorem syncOrder (clock : Option κ) (clockOf : σ → Option κ) (first : σ) (slaves : List σ) (last : σ)
    (isLast : (first :: slaves).getLast? = some last) :
    ((WireMaster.build.bindSlaves (first :: slaves)).finalize clock clockOf).sync clockOf = some
      (slaves.map Event.sync ++ ((if clock ≠ clockOf last ∧ (clockOf last).isSome then [.clockSync last] else []) ++ [.sync first])) := by
  rw [bindSlavesAll, isLast]
  unfold WireMaster.finalize
  dsimp only
  by_cases other : clock ≠ clockOf last
  · rw [if_pos other]
    unfold WireMaster.sync WireMaster.stub
    simp [syncNextReverse, other]
  · rw [if_neg other]
    unfold WireMaster.sync
    simp [syncNextReverse, other]

theorem syncCount [DecidableEq σ] (clock : Option κ) (clockOf : σ → Option κ) {slaves : List σ} {events : List (Event σ)}
    (sent : ((WireMaster.build.bindSlaves slaves).finalize clock clockOf).sync clockOf = some events) (slave : σ) :
    events.count (.sync slave) = slaves.count slave := by
  cases slaves with
  | nil => contradiction
  | cons first rest =>
      obtain ⟨last, isLast⟩ : ∃ last, (first :: rest).getLast? = some last := ⟨_, List.getLast?_eq_some_getLast (by simp)⟩
      rw [syncOrder clock clockOf first rest last isLast] at sent
      cases sent
      have inner : (rest.map Event.sync).count (Event.sync slave) = rest.count slave :=
        List.count_map_of_injective _ _ (fun a b same => Event.sync.inj same) _
      have none : List.count (Event.sync slave)
          (if clock ≠ clockOf last ∧ (clockOf last).isSome then [Event.clockSync last] else []) = 0 := by
        split <;> simp
      rw [List.count_append, List.count_append, inner, none, List.count_cons, List.count_cons]
      by_cases same : first = slave
      · simp [same]
      · simp [same]

end Fanout

section Routes
open PortBinding

variable {κ : Type} [DecidableEq κ]

/- A value that a model sends through a master port comes to every slave port once for each route to it, whatever the clocks are. -/
theorem syncRoutes {comp : Comp} {bindings : List (Port × Port)} {rank : Port → Nat} (built : createBindings [] comp = some bindings)
    (plain : bindings.Nodup) (down : ∀ b ∈ bindings, rank b.2 < rank b.1) {p : Port} (inside : p ∈ masterPorts [] comp)
    {depth : Nat} (deep : rank p ≤ depth) (clock : Option κ) (clockOf : Port → Option κ) {events : List (Event Port)}
    (sent : ((WireMaster.build.bindSlaves (bindToSlaves bindings depth p)).finalize clock clockOf).sync clockOf = some events)
    (q : Port) :
    ∃ routes : List (List Port), routes.Nodup ∧ (∀ path, path ∈ routes ↔ Route bindings p q path) ∧
      (∀ path ∈ routes, q.kind = .slave ∧ ∀ r ∈ path.tail.dropLast, r.kind = .virtual) ∧
      events.count (.sync q) = routes.length := by
  obtain ⟨routes, distinct, all, count⟩ := bindToSlavesRoutes plain down (masterPortsInside [] comp p inside).1 deep q
  refine ⟨routes, distinct, all, fun path member => ?_, (syncCount clock clockOf sent q).trans count⟩
  exact routeInner (createBindingsKinds [] comp built) ((all path).mp member)

theorem syncPair :
    ∃ routes : List (List Port), routes.Nodup ∧
      (∀ path, path ∈ routes ↔ Route pairBindings ⟨[['a']], ['o'], .master⟩ ⟨[['b'], ['d']], ['i'], .slave⟩ path) ∧
      (∀ path ∈ routes, (⟨[['b'], ['d']], ['i'], .slave⟩ : Port).kind = .slave ∧ ∀ r ∈ path.tail.dropLast, r.kind = .virtual) ∧
      [Event.sync (⟨[['b'], ['d']], ['i'], .slave⟩ : Port), .clockSync ⟨[['b'], ['d']], ['i'], .slave⟩,
        .sync ⟨[['b'], ['c']], ['i'], .slave⟩].count (.sync ⟨[['b'], ['d']], ['i'], .slave⟩) = routes.length :=
  @syncRoutes Nat _ pair pairBindings pairRank (by decide +kernel) (by decide) (by decide) _ (by decide +kernel) 2 (by decide)
    (some 1) (fun _ => some 2) _ (by decide) _

end Routes

end Gvsoc.WireFanout
