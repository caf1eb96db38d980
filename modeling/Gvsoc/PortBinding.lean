import Gvsoc.Walks

/-! The bindings of a hierarchy of components. A composite has ports of its own that only lead on to others, and bindings between its ports
and those of its components. Every component, a composite too, has slave ports for its clock, its reset and its power supply. At the end the
master ports of the models are bound to the slave ports that they lead to. -/
namespace Gvsoc.PortBinding
open Walks (Walk walks ends)

abbrev Name := List Char

inductive Kind where
  | master
  | slave
  | virtual
  deriving DecidableEq, Repr

structure Port where
  owner : List Name
  name : Name
  kind : Kind
  deriving DecidableEq, Repr

inductive Comp where
  | model (masters slaves : List Name)
  | composite (ports : List Name) (comps : List (Name × Comp)) (bindings : List (Name × Name))

def self : Name := ['s', 'e', 'l', 'f']

/- One end of a binding: the name of a component, and the one of a port. The text is cut at the first `-` or `>`. -/
def splitBinding (text : Name) : Option (Name × Name) :=
  match text.findIdx? fun c => c = '-' || c = '>' with
  | some pos => if pos + 2 ≤ text.length then some (text.take pos, text.drop (pos + 2)) else none
  | none => if 1 ≤ text.length then some (text, text.drop 1) else none

/- The slave ports that a component has before its own are made. -/
def clockPorts : List Name := [['c', 'l', 'o', 'c', 'k'], ['r', 'e', 's', 'e', 't']]

def powerSupply : Name := ['p', 'o', 'w', 'e', 'r', '_', 's', 'u', 'p', 'p', 'l', 'y']

/- `get_master_port` and `get_slave_port` of a component that is built. A composite has one map for both, where the last port of a name
counts. -/
def Comp.port (owner : List Name) (kind : Kind) (name : Name) : Comp → Option Port
  | .model masters slaves =>
      if name ∈ (if kind = .master then masters else clockPorts ++ slaves ++ [powerSupply]) then some ⟨owner, name, kind⟩ else none
  | .composite ports _ _ =>
      if name ∈ clockPorts ++ [powerSupply] then some ⟨owner, name, .slave⟩
      else if name ∈ ports then some ⟨owner, name, .virtual⟩
      else none

/- A port of the composite itself, which has no power supply yet. `create_ports` makes none where there is one. -/
def selfPort (owner : List Name) (ports : List Name) (name : Name) : Option Port :=
  if name ∈ clockPorts then some ⟨owner, name, .slave⟩
  else if name ∈ ports then some ⟨owner, name, .virtual⟩
  else none

def bindingPort (owner : List Name) (ports : List Name) (comps : List (Name × Comp)) (kind : Kind) (text : Name) : Option Port := do
  let (compName, portName) ← splitBinding text
  if compName = self then selfPort owner ports portName
  else do
    let (_, comp) ← comps.reverse.find? fun child => child.1 = compName
    comp.port (owner ++ [compName]) kind portName

/- `bind_to_virtual` does nothing for a slave port. -/
def createBinding (owner : List Name) (ports : List Name) (comps : List (Name × Comp)) (binding : Name × Name) :
    Option (List (Port × Port)) := do
  let master ← bindingPort owner ports comps .master binding.1
  let slave ← bindingPort owner ports comps .slave binding.2
  some (if master.kind = .slave then [] else [(master, slave)])

mutual

/- What was added to `slave_ports` while a component was built. Its components are built first. -/
def createBindings (owner : List Name) : Comp → Option (List (Port × Port))
  | .model _ _ => some []
  | .composite ports comps bindings => do
      let inner ← createComps owner comps
      let own ← bindings.mapM (createBinding owner ports comps)
      some (inner ++ own.flatten)

def createComps (owner : List Name) : List (Name × Comp) → Option (List (Port × Port))
  | [] => some []
  | (name, comp) :: rest => do
      let first ← createBindings (owner ++ [name]) comp
      let later ← createComps owner rest
      some (first ++ later)

end

mutual

/- The master ports of the models, as `bind_comps` comes to them. -/
def masterPorts (owner : List Name) : Comp → List Port
  | .model masters _ => masters.map fun name => ⟨owner, name, .master⟩
  | .composite _ comps _ => childPorts owner comps

def childPorts (owner : List Name) : List (Name × Comp) → List Port
  | [] => []
  | (name, comp) :: rest => masterPorts (owner ++ [name]) comp ++ childPorts owner rest

end

mutual

def WellNamed : Comp → Prop
  | .model masters _ => masters.Nodup
  | .composite _ comps _ => (comps.map Prod.fst).Nodup ∧ ChildrenNamed comps

def ChildrenNamed : List (Name × Comp) → Prop
  | [] => True
  | (_, comp) :: rest => WellNamed comp ∧ ChildrenNamed rest

end

section Bind

variable (bindings : List (Port × Port))

def slavePorts (p : Port) : List Port := (bindings.filter fun binding => binding.1 = p).map Prod.snd

def isFinal (p : Port) : Bool := p.kind = .slave

def getFinalPorts (depth : Nat) (p : Port) : List Port := ends isFinal (slavePorts bindings) depth p

def bindToSlaves (depth : Nat) (p : Port) : List Port := (slavePorts bindings p).flatMap (getFinalPorts bindings depth)

def bindComps (depth : Nat) (comp : Comp) : List (Port × Port) :=
  (masterPorts [] comp).flatMap fun master => (bindToSlaves bindings depth master).map fun slave => (master, slave)

def Route (p q : Port) (path : List Port) : Prop := Walk isFinal (slavePorts bindings) p path ∧ path.getLast? = some q

end Bind

section Names

mutual

theorem masterPortsInside (owner : List Name) : (comp : Comp) → ∀ p ∈ masterPorts owner comp, p.kind = .master ∧ owner <+: p.owner
  | .model masters _ => by
      intro p member
      rw [masterPorts] at member
      obtain ⟨name, -, rfl⟩ := List.mem_map.mp member
      exact ⟨rfl, List.prefix_rfl⟩
  | .composite _ comps _ => by
      intro p member
      rw [masterPorts] at member
      obtain ⟨kind, name, -, inside⟩ := childPortsInside owner comps p member
      exact ⟨kind, (List.prefix_append owner [name]).trans inside⟩

theorem childPortsInside (owner : List Name) : (comps : List (Name × Comp)) →
    ∀ p ∈ childPorts owner comps, p.kind = .master ∧ ∃ name, name ∈ comps.map Prod.fst ∧ owner ++ [name] <+: p.owner
  | [] => by
      intro p member
      simp [childPorts] at member
  | (name, comp) :: rest => by
      intro p member
      rw [childPorts, List.mem_append] at member
      rcases member with here | later
      · obtain ⟨kind, inside⟩ := masterPortsInside (owner ++ [name]) comp p here
        exact ⟨kind, name, by simp, inside⟩
      · obtain ⟨kind, other, member, inside⟩ := childPortsInside owner rest p later
        exact ⟨kind, other, by simp [member], inside⟩

end

theorem ownersApart {owner path : List Name} {a b : Name} (first : owner ++ [a] <+: path) (second : owner ++ [b] <+: path) : a = b := by
  have same := List.prefix_of_prefix_length_le first second (by simp)
  have whole := same.eq_of_length (by simp)
  simpa using whole

mutual

theorem masterPortsNodup (owner : List Name) : (comp : Comp) → WellNamed comp → (masterPorts owner comp).Nodup
  | .model masters _ => by
      intro named
      rw [masterPorts]
      rw [WellNamed] at named
      exact named.map fun a b same => (Port.mk.inj same).2.1
  | .composite _ comps _ => by
      intro named
      rw [masterPorts]
      rw [WellNamed] at named
      exact childPortsNodup owner comps named.1 named.2

theorem childPortsNodup (owner : List Name) : (comps : List (Name × Comp)) → (comps.map Prod.fst).Nodup → ChildrenNamed comps →
    (childPorts owner comps).Nodup
  | [] => by
      intro _ _
      rw [childPorts]
      exact List.nodup_nil
  | (name, comp) :: rest => by
      intro names named
      rw [childPorts]
      rw [ChildrenNamed] at named
      rw [List.map_cons, List.nodup_cons] at names
      refine List.nodup_append'.mpr ⟨masterPortsNodup (owner ++ [name]) comp named.1, childPortsNodup owner rest names.2 named.2, ?_⟩
      intro p here later
      obtain ⟨-, inside⟩ := masterPortsInside (owner ++ [name]) comp p here
      obtain ⟨-, other, member, elsewhere⟩ := childPortsInside owner rest p later
      exact names.1 (ownersApart inside elsewhere ▸ member)

end

end Names

section Routes

variable {bindings : List (Port × Port)}

theorem slavePortsMem {p q : Port} : q ∈ slavePorts bindings p ↔ (p, q) ∈ bindings := by
  unfold slavePorts
  simp only [List.mem_map, List.mem_filter, decide_eq_true_eq]
  constructor
  · rintro ⟨⟨a, b⟩, ⟨member, rfl⟩, rfl⟩
    exact member
  · exact fun member => ⟨(p, q), ⟨member, rfl⟩, rfl⟩

theorem slavePortsNodup (plain : bindings.Nodup) (p : Port) : (slavePorts bindings p).Nodup := by
  refine List.Nodup.map_on ?_ (plain.filter _)
  rintro ⟨a, b⟩ first ⟨c, d⟩ second same
  simp only [List.mem_filter, decide_eq_true_eq] at first second same
  rw [first.2, second.2, same]

theorem bindToSlavesEnds {p : Port} (master : p.kind = .master) (depth : Nat) :
    bindToSlaves bindings depth p = ends isFinal (slavePorts bindings) (depth + 1) p := by
  unfold bindToSlaves getFinalPorts
  rw [ends, if_neg (by simp [isFinal, master])]

theorem bindToSlavesCount {p : Port} (master : p.kind = .master) (depth : Nat) (q : Port) :
    (bindToSlaves bindings depth p).count q =
      ((walks isFinal (slavePorts bindings) (depth + 1) p).filter fun path => path.getLast? == some q).length := by
  rw [bindToSlavesEnds master, Walks.endsCount, List.countP_eq_length_filter]

theorem bindToSlavesRoutes {rank : Port → Nat} (plain : bindings.Nodup) (down : ∀ b ∈ bindings, rank b.2 < rank b.1)
    {p : Port} (master : p.kind = .master) {depth : Nat} (deep : rank p ≤ depth) (q : Port) :
    ∃ routes : List (List Port), routes.Nodup ∧ (∀ path, path ∈ routes ↔ Route bindings p q path) ∧
      (bindToSlaves bindings depth p).count q = routes.length := by
  refine ⟨_, (Walks.walksNodup (slavePortsNodup plain) (depth + 1) p).filter _, fun path => ?_, bindToSlavesCount master depth q⟩
  rw [List.mem_filter, beq_iff_eq]
  constructor
  · exact fun found => ⟨Walks.walksWalk found.1, found.2⟩
  · rintro ⟨walk, last⟩
    have bound : path.length ≤ rank p + 1 := Walks.walkBound (fun p q edge => down (p, q) (slavePortsMem.mp edge)) walk
    exact ⟨Walks.walkFound walk (by omega), last⟩

theorem bindCompsCount (comp : Comp) (named : WellNamed comp) (depth : Nat) {p : Port} (inside : p ∈ masterPorts [] comp) (q : Port) :
    (bindComps bindings depth comp).count (p, q) = (bindToSlaves bindings depth p).count q := by
  have plain := masterPortsNodup [] comp named
  unfold bindComps
  generalize masterPorts [] comp = masters at inside plain
  have one (master : Port) : ((bindToSlaves bindings depth master).map fun slave => (master, slave)).count (p, q) =
      if master = p then (bindToSlaves bindings depth p).count q else 0 := by
    split
    · rename_i same
      subst same
      exact List.count_map_of_injective _ _ (fun a b same => (Prod.mk.inj same).2) _
    · rename_i other
      refine List.count_eq_zero.mpr fun member => ?_
      obtain ⟨slave, -, same⟩ := List.mem_map.mp member
      exact other (Prod.mk.inj same).1
  induction masters with
  | nil => simp at inside
  | cons master rest ih =>
      rw [List.nodup_cons] at plain
      rw [List.flatMap_cons, List.count_append, one]
      rcases List.mem_cons.mp inside with rfl | later
      · rw [if_pos rfl, Nat.add_eq_left, List.count_eq_zero, List.mem_flatMap]
        rintro ⟨other, member, bound⟩
        obtain ⟨slave, -, same⟩ := List.mem_map.mp bound
        obtain ⟨rfl, -⟩ := Prod.mk.inj same
        exact plain.1 member
      · have other : master ≠ p := by
          rintro rfl
          exact plain.1 later
        rw [if_neg other, Nat.zero_add, ih later plain.2]

theorem portKind {owner : List Name} {kind : Kind} {name : Name} {comp : Comp} {p : Port} (found : comp.port owner kind name = some p) :
    p.kind = kind ∨ p.kind ≠ .master := by
  cases comp with
  | model masters slaves =>
      rw [Comp.port, Option.ite_none_right_eq_some] at found
      obtain ⟨-, same⟩ := found
      cases same
      exact .inl rfl
  | composite ports comps bindings =>
      rw [Comp.port] at found
      split at found
      · cases found
        exact .inr Kind.noConfusion
      · rw [Option.ite_none_right_eq_some] at found
        obtain ⟨-, same⟩ := found
        cases same
        exact .inr Kind.noConfusion

theorem selfPortKind {owner ports : List Name} {name : Name} {p : Port} (found : selfPort owner ports name = some p) : p.kind ≠ .master := by
  unfold selfPort at found
  split at found
  · cases found
    exact Kind.noConfusion
  · obtain ⟨-, same⟩ := Option.ite_none_right_eq_some.mp found
    cases same
    exact Kind.noConfusion

theorem bindingPortKind {owner ports : List Name} {comps : List (Name × Comp)} {kind : Kind} {text : Name} {p : Port}
    (found : bindingPort owner ports comps kind text = some p) : p.kind = kind ∨ p.kind ≠ .master := by
  simp only [bindingPort, bind, Option.bind_eq_some_iff] at found
  obtain ⟨⟨compName, portName⟩, -, found⟩ := found
  dsimp only at found
  split at found
  · exact .inr (selfPortKind found)
  · obtain ⟨⟨name, comp⟩, -, found⟩ := Option.bind_eq_some_iff.mp found
    exact portKind found

theorem createBindingKinds {owner ports : List Name} {comps : List (Name × Comp)} {binding : Name × Name} {made : List (Port × Port)}
    (done : createBinding owner ports comps binding = some made) : ∀ b ∈ made, b.1.kind ≠ .slave ∧ b.2.kind ≠ .master := by
  simp only [createBinding, bind, Option.bind_eq_some_iff] at done
  obtain ⟨master, -, slave, second, same⟩ := done
  cases same
  intro b member
  split at member
  · contradiction
  · rename_i onward
    obtain rfl := List.mem_singleton.mp member
    refine ⟨onward, ?_⟩
    rcases bindingPortKind second with kind | other
    · rw [kind]
      decide
    · exact other

theorem mapMMem {α β : Type} {f : α → Option β} {xs : List α} {ys : List β} (done : xs.mapM f = some ys) {y : β} (member : y ∈ ys) :
    ∃ x, f x = some y := by
  induction xs generalizing ys with
  | nil =>
      cases done
      simp at member
  | cons x rest ih =>
      simp only [List.mapM_cons, bind, Option.bind_eq_some_iff, pure] at done
      obtain ⟨first, one, later, two, same⟩ := done
      cases same
      rcases List.mem_cons.mp member with rfl | inside
      · exact ⟨x, one⟩
      · exact ih two inside

mutual

theorem createBindingsKinds (owner : List Name) : (comp : Comp) → ∀ {bindings : List (Port × Port)},
    createBindings owner comp = some bindings → ∀ b ∈ bindings, b.1.kind ≠ .slave ∧ b.2.kind ≠ .master
  | .model _ _ => by
      intro built b member
      rw [createBindings] at built
      cases built
      simp at member
  | .composite ports comps texts => by
      intro built b member
      rw [createBindings] at built
      simp only [bind, Option.bind_eq_some_iff] at built
      obtain ⟨inner, first, own, second, same⟩ := built
      cases same
      rcases List.mem_append.mp member with inside | here
      · exact createCompsKinds owner comps first b inside
      · obtain ⟨made, step, there⟩ := List.mem_flatten.mp here
        obtain ⟨text, done⟩ := mapMMem second step
        exact createBindingKinds done b there

theorem createCompsKinds (owner : List Name) : (comps : List (Name × Comp)) → ∀ {bindings : List (Port × Port)},
    createComps owner comps = some bindings → ∀ b ∈ bindings, b.1.kind ≠ .slave ∧ b.2.kind ≠ .master
  | [] => by
      intro built b member
      rw [createComps] at built
      cases built
      simp at member
  | (name, comp) :: rest => by
      intro built b member
      rw [createComps] at built
      simp only [bind, Option.bind_eq_some_iff] at built
      obtain ⟨first, one, later, two, same⟩ := built
      cases same
      rcases List.mem_append.mp member with here | after
      · exact createBindingsKinds (owner ++ [name]) comp one b here
      · exact createCompsKinds owner rest two b after

end

theorem routeInner (kinds : ∀ b ∈ bindings, b.1.kind ≠ .slave ∧ b.2.kind ≠ .master) {p q : Port} {path : List Port}
    (route : Route bindings p q path) : q.kind = .slave ∧ ∀ r ∈ path.tail.dropLast, r.kind = .virtual := by
  obtain ⟨walk, last⟩ := route
  induction walk with
  | @done p ends =>
      obtain rfl : p = q := by simpa using last
      exact ⟨by simpa [isFinal] using ends, by simp⟩
  | @step p r path on edge rest ih =>
      have some := Walks.walkNonempty rest
      obtain ⟨head, tail, rfl⟩ := List.exists_cons_of_ne_nil some
      obtain rfl : head = r := by simpa using Walks.walkHead rest
      have ends : (head :: tail).getLast? = Option.some q := by simpa [List.getLast?_cons_cons] using last
      obtain ⟨slave, inner⟩ := ih ends
      refine ⟨slave, fun x member => ?_⟩
      cases tail with
      | nil => simp at member
      | cons second tail =>
          rw [List.tail_cons, List.dropLast_cons_cons, List.mem_cons] at member
          rcases member with rfl | later
          · have into := (kinds _ (slavePortsMem.mp edge)).2
            have onward : isFinal x = false := by
              cases rest
              assumption
            cases kind : x.kind with
            | master => exact absurd kind into
            | slave => simp [isFinal, kind] at onward
            | virtual => rfl
          · exact inner x later

/- A master port of a model is bound to another port once for each route between them. That is a slave port then, and all on the way are
virtual ports of composites. -/
theorem bindCompsRoutes {comp : Comp} {rank : Port → Nat} (named : WellNamed comp) (built : createBindings [] comp = some bindings)
    (plain : bindings.Nodup) (down : ∀ b ∈ bindings, rank b.2 < rank b.1) {p : Port} (inside : p ∈ masterPorts [] comp)
    {depth : Nat} (deep : rank p ≤ depth) (q : Port) :
    ∃ routes : List (List Port), routes.Nodup ∧ (∀ path, path ∈ routes ↔ Route bindings p q path) ∧
      (∀ path ∈ routes, q.kind = .slave ∧ ∀ r ∈ path.tail.dropLast, r.kind = .virtual) ∧
      (bindComps bindings depth comp).count (p, q) = routes.length := by
  obtain ⟨routes, distinct, all, count⟩ := bindToSlavesRoutes plain down (masterPortsInside [] comp p inside).1 deep q
  refine ⟨routes, distinct, all, fun path member => ?_, (bindCompsCount comp named depth inside q).trans count⟩
  exact routeInner (createBindingsKinds [] comp built) ((all path).mp member)

/- A model with a port that leads to two others inside a composite, and one that resets the composite. The reset of the composite is bound
to none inside. -/
def pair : Comp :=
  .composite [] [(['a'], .model [['o'], ['r']] []),
    (['b'], .composite [['x']] [(['c'], .model [] [['i']]), (['d'], .model [] [['i']])]
      [("self->x".toList, "c->i".toList), ("self->x".toList, "d->i".toList), ("self->reset".toList, "c->reset".toList)])]
    [("a->o".toList, "b->x".toList), ("a->r".toList, "b->reset".toList)]

def pairBindings : List (Port × Port) :=
  [(⟨[['b']], ['x'], .virtual⟩, ⟨[['b'], ['c']], ['i'], .slave⟩), (⟨[['b']], ['x'], .virtual⟩, ⟨[['b'], ['d']], ['i'], .slave⟩),
    (⟨[['a']], ['o'], .master⟩, ⟨[['b']], ['x'], .virtual⟩),
    (⟨[['a']], ['r'], .master⟩, ⟨[['b']], ['r', 'e', 's', 'e', 't'], .slave⟩)]

def pairRank (p : Port) : Nat :=
  match p.kind with
  | .master => 2
  | .virtual => 1
  | .slave => 0

theorem bindCompsPair :
    ∃ routes : List (List Port), routes.Nodup ∧
      (∀ path, path ∈ routes ↔ Route pairBindings ⟨[['a']], ['r'], .master⟩ ⟨[['b']], ['r', 'e', 's', 'e', 't'], .slave⟩ path) ∧
      (∀ path ∈ routes, (⟨[['b']], ['r', 'e', 's', 'e', 't'], .slave⟩ : Port).kind = .slave ∧ ∀ r ∈ path.tail.dropLast, r.kind = .virtual) ∧
      (bindComps pairBindings 2 pair).count (⟨[['a']], ['r'], .master⟩, ⟨[['b']], ['r', 'e', 's', 'e', 't'], .slave⟩) = routes.length :=
  @bindCompsRoutes pairBindings pair pairRank (by simp [WellNamed, ChildrenNamed, pair]) (by decide +kernel) (by decide) (by decide)
    _ (by decide +kernel) 2 (by decide) _

end Routes

end Gvsoc.PortBinding
