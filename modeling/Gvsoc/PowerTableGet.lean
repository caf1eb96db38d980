import Gvsoc.PowerTable

/-! What a power table returns for a temperature and a voltage. -/
namespace Gvsoc.PowerTable
open Interpolation

def number (name : Name) : Rat := (stod name).getD 0

def Members.map {α β : Type} (m : Members α) (f : Name → α → β) : Members β where
  childs := m.childs.map fun x => (x.1, f x.1 x.2)
  ordered := List.pairwise_map.mpr m.ordered

structure Names where
  temps : Members (Members Unit)
  filled : temps.childs ≠ [] ∧ ∀ t ∈ temps.childs, t.2.childs ≠ []
  decimal : ∀ t ∈ temps.childs, (stod t.1).isSome = true ∧ ∀ u ∈ t.2.childs, (stod u.1).isSome = true

def key {α : Type} (x : Name × α) : Rat := number x.1

namespace Names

variable (names : Names)

def config (power : Name → Name → Rat) : Members (Members (Members Rat)) :=
  names.temps.map fun temp volts => volts.map fun volt _ => { childs := [(anyName, power temp volt)], ordered := List.pairwise_singleton _ _ }

def get (power : Name → Name → Rat) (temp volt frequency : Rat) : Option Rat :=
  (LinearTable.build (names.config power)).bind fun table => table.get temp volt frequency

def AtTemp (power : Name → Name → Rat) (volt : Rat) (t : Name × Members Unit) (v : Rat) : Prop :=
  Interpolates key (fun u w => w = power t.1 u.1) t.2.childs volt v

structure Right (power : Name → Name → Rat) (temp volt r : Rat) : Prop where
  interpolated : Interpolates key (AtTemp power volt) names.temps.childs temp r
  bounded : ∀ a b, (∀ t ∈ names.temps.childs, ∀ u ∈ t.2.childs, a ≤ power t.1 u.1 ∧ power t.1 u.1 ≤ b) → a ≤ r ∧ r ≤ b

def Meets : Prop := ∀ power temp volt frequency, ∃ r, names.get power temp volt frequency = some r ∧ names.Right power temp volt r

def Increasing : Prop :=
  names.temps.childs.Pairwise (fun a b => key a ≤ key b) ∧ ∀ t ∈ names.temps.childs, t.2.childs.Pairwise fun a b => key a ≤ key b

def Distinct : Prop :=
  names.temps.childs.Pairwise (fun a b => key a ≠ key b) ∧ ∀ t ∈ names.temps.childs, t.2.childs.Pairwise fun a b => key a ≠ key b

end Names

section Build

variable {names : Names} {power : Name → Name → Rat} {temp volt frequency : Rat}

theorem mapSome {α β : Type} {f : α → Option β} {g : α → β} {list : List α} (each : ∀ x ∈ list, f x = some (g x)) :
    list.mapM f = some (list.map g) := by
  induction list with
  | nil => rfl
  | cons x rest rec =>
      rw [List.mapM_cons, each x List.mem_cons_self, rec fun y inside => each y (List.mem_cons_of_mem x inside)]
      rfl

theorem numberStod {name : Name} (decimal : (stod name).isSome = true) : stod name = some (number name) := by
  obtain ⟨r, found⟩ := Option.isSome_iff_exists.mp decimal
  rw [number, found]
  rfl

def voltTable (power : Name → Name → Rat) (temp : Name) (u : Name × Unit) : LinearVoltTable := ⟨key u, some (power temp u.1)⟩

def tempTable (power : Name → Name → Rat) (t : Name × Members Unit) : LinearTempTable := ⟨key t, t.2.childs.map (voltTable power t.1)⟩

theorem configBuilt (names : Names) (power : Name → Name → Rat) :
    LinearTable.build (names.config power) = some ⟨names.temps.childs.map (tempTable power)⟩ := by
  have inner (t : Name × Members Unit) (inside : t ∈ names.temps.childs) :
      LinearTempTable.build (key t) (t.2.map fun volt _ => ⟨[(anyName, power t.1 volt)], List.pairwise_singleton _ _⟩) =
        some (tempTable power t) := by
    unfold LinearTempTable.build Members.map
    rw [List.mapM_map, mapSome (g := voltTable power t.1) fun u member => ?_]
    · rfl
    · simp only [Function.comp_apply, numberStod ((names.decimal t inside).2 u member)]
      rfl
  unfold LinearTable.build Names.config Members.map
  rw [List.mapM_map, mapSome (g := tempTable power) fun t inside => ?_]
  · rfl
  · simp only [Function.comp_apply, numberStod (names.decimal t inside).1]
    exact inner t inside

end Build

section Get

variable {names : Names} {power : Name → Name → Rat} {temp volt frequency : Rat} {t : Name × Members Unit}

theorem searchMap {α β : Type} (k : β → Rat) (f : α → β) (x : Rat) (i : Nat) (low : Option Nat) (list : List α) :
    search k x i low (list.map f) = search (fun a => k (f a)) x i low list := by
  induction list generalizing i low with
  | nil => rfl
  | cons a list rec => simp only [List.map_cons, search, rec]

theorem interpolateMap {α β : Type} (k : β → Rat) (value : β → Option Rat) (f : α → β) (x : Rat) (list : List α) :
    interpolate k value x (list.map f) = interpolate (fun a => k (f a)) (fun a => value (f a)) x list := by
  unfold interpolate
  rw [searchMap]
  generalize search (fun a => k (f a)) x 0 none list = found
  obtain ⟨low, high⟩ := found
  dsimp only
  cases low.or (high.or low) with
  | none => rfl
  | some low =>
      cases high.or _ with
      | none => rfl
      | some high =>
          simp only [List.getElem?_map]
          cases list[low]? with
          | none => rfl
          | some lowTable =>
              cases list[high]? <;> rfl

theorem tempGet (power : Name → Name → Rat) (volt frequency : Rat) (filled : t.2.childs ≠ []) :
    ∃ low high, Chosen key volt t.2.childs low high ∧
      (tempTable power t).get volt frequency = some (line (key low) (power t.1 low.1) (key high) (power t.1 high.1) volt) := by
  obtain ⟨low, high, chosen, got⟩ := interpolateChosen key (fun u => (voltTable power t.1 u).get frequency) volt filled
  refine ⟨low, high, chosen, ?_⟩
  unfold LinearTempTable.get tempTable
  rw [interpolateMap]
  exact got

theorem tableGet (names : Names) (power : Name → Name → Rat) (temp volt frequency : Rat) :
    ∃ low high, Chosen key temp names.temps.childs low high ∧
      names.get power temp volt frequency = ((tempTable power low).get volt frequency).bind fun vl =>
        ((tempTable power high).get volt frequency).map fun vh => line (key low) vl (key high) vh temp := by
  obtain ⟨low, high, chosen, got⟩ := interpolateChosen key (fun u => (tempTable power u).get volt frequency) temp names.filled.1
  refine ⟨low, high, chosen, ?_⟩
  unfold Names.get
  rw [configBuilt, Option.bind_some, LinearTable.get, interpolateMap]
  exact got

theorem increasingMeets (increasing : names.Increasing) : names.Meets := by
  intro power temp volt frequency
  have each (t) (inside : t ∈ names.temps.childs) :
      ∃ v, (tempTable power t).get volt frequency = some v ∧ Names.AtTemp power volt t v := by
    obtain ⟨low, high, chosen, got⟩ := tempGet power volt frequency (names.filled.2 t inside)
    exact ⟨_, got, low, high, chosenNeighbours (increasing.2 t inside) chosen, _, _, rfl, rfl, rfl⟩
  obtain ⟨low, high, chosen, got⟩ := tableGet names power temp volt frequency
  obtain ⟨lowIn, highIn⟩ := chosenIn chosen
  obtain ⟨vl, gotLow, atLow⟩ := each low lowIn
  obtain ⟨vh, gotHigh, atHigh⟩ := each high highIn
  have interpolated : Interpolates key (Names.AtTemp power volt) names.temps.childs temp (line (key low) vl (key high) vh temp) :=
    ⟨low, high, chosenNeighbours increasing.1 chosen, vl, vh, atLow, atHigh, rfl⟩
  refine ⟨line (key low) vl (key high) vh temp, ?_, interpolated, fun a b all => ?_⟩
  · rw [got, gotLow, gotHigh]
    rfl
  · refine interpolatesBetween interpolated fun t inside v value => interpolatesBetween value fun u member w same => ?_
    rw [same]
    exact all t inside u member

theorem pairSplit {α : Type} {list : List α} {a b : α} (pair : [a, b].Sublist list) :
    ∃ front middle rest, list = front ++ a :: (middle ++ b :: rest) := by
  obtain ⟨left, right, rfl, here, later⟩ := List.cons_sublist_iff.mp pair
  obtain ⟨front, middle, rfl⟩ := List.append_of_mem here
  obtain ⟨middle', rest, rfl⟩ := List.append_of_mem (List.singleton_sublist.mp later)
  exact ⟨front, middle ++ middle', rest, by simp⟩

theorem distinctSame {α : Type} {list : List (Name × α)} (distinct : list.Pairwise fun a b => key a ≠ key b) {a b : Name × α}
    (first : a ∈ list) (second : b ∈ list) (same : key a = key b) : a = b := by
  have symmetric : Std.Symm fun a b : Name × α => key a ≠ key b := ⟨fun _ _ other => other.symm⟩
  by_contra different
  exact distinct.forall first second different same

def onlyAt (x : Rat) (name : Name) : Rat := if number name = x then 1 else 0

theorem constantGet {v : Rat} (constant : ∀ name, power t.1 name = v) (filled : t.2.childs ≠ []) :
    (tempTable power t).get volt frequency = some v := by
  obtain ⟨low, high, -, got⟩ := tempGet power volt frequency filled
  rw [got, constant, constant, lineSame]

/- The temperatures of a table whose values are right are in order. Otherwise the search misses one of them, which alone
may have the power one. -/
theorem meetsTemps (meets : names.Meets) (distinct : names.Distinct) : names.temps.childs.Pairwise fun a b => key a ≤ key b := by
  refine List.pairwise_iff_forall_sublist.mpr fun {t u} pair => ?_
  by_contra greater
  obtain ⟨front, middle, rest, shape⟩ := pairSplit pair
  have inside : u ∈ names.temps.childs := by simp [shape]
  obtain ⟨r, got, right, -⟩ := meets (fun temp _ => onlyAt (key u) temp) (key u) 0 0
  obtain ⟨low, high, chosen, value⟩ := tableGet names (fun temp _ => onlyAt (key u) temp) (key u) 0 0
  obtain ⟨lowIn, highIn⟩ := chosenIn chosen
  have missed := chosenMisses (shape ▸ distinct.1) (not_le.mp greater) (shape ▸ chosen)
  have zero : r = 0 := by
    rw [value, constantGet (fun _ => if_neg missed.1) (names.filled.2 low lowIn),
      constantGet (fun _ => if_neg missed.2) (names.filled.2 high highIn), Option.bind_some, Option.map_some, lineSame] at got
    exact (Option.some.inj got).symm
  have one : r = 1 := by
    obtain ⟨low, high, neighbours, vl, vh, atLow, -, rfl⟩ := right
    obtain ⟨same, same'⟩ := neighboursHere neighbours inside
    have own : onlyAt (key u) low.1 = 1 := if_pos same
    have constant : (1 : Rat) ≤ vl ∧ vl ≤ 1 := interpolatesBetween atLow fun v _ w equal => by
      rw [equal.trans own]
      exact ⟨le_rfl, le_rfl⟩
    rw [same, same', lineAlone]
    exact le_antisymm constant.2 constant.1
  rw [zero] at one
  exact zero_ne_one one

theorem meetsVolts (meets : names.Meets) (distinct : names.Distinct) (inside : t ∈ names.temps.childs) :
    t.2.childs.Pairwise fun a b => key a ≤ key b := by
  have sorted := meetsTemps meets distinct
  refine List.pairwise_iff_forall_sublist.mpr fun {v u} pair => ?_
  by_contra greater
  obtain ⟨front, middle, rest, shape⟩ := pairSplit pair
  have member : u ∈ t.2.childs := by simp [shape]
  obtain ⟨r, got, right, -⟩ := meets (fun _ volt => onlyAt (key u) volt) (key t) (key u) 0
  obtain ⟨low, high, chosen, value⟩ := tableGet names (fun _ volt => onlyAt (key u) volt) (key t) (key u) 0
  obtain ⟨lowIn, highIn⟩ := chosenIn chosen
  obtain ⟨lowSame, highSame⟩ := neighboursHere (chosenNeighbours sorted chosen) inside
  obtain rfl := distinctSame distinct.1 lowIn inside lowSame
  obtain rfl := distinctSame distinct.1 highIn inside highSame
  have zero : r = 0 := by
    obtain ⟨first, second, found, inner⟩ := tempGet (fun _ volt => onlyAt (key u) volt) (key u) 0 (names.filled.2 high inside)
    have missed := chosenMisses (shape ▸ distinct.2 high inside) (not_le.mp greater) (shape ▸ found)
    rw [value, inner, onlyAt, onlyAt, if_neg (show number first.1 ≠ key u from missed.1),
      if_neg (show number second.1 ≠ key u from missed.2), lineSame, Option.bind_some, Option.map_some, lineSame] at got
    exact (Option.some.inj got).symm
  have one : r = 1 := by
    obtain ⟨below, above, neighbours, vl, vh, atLow, -, rfl⟩ := right
    obtain ⟨lowSame, highSame⟩ := neighboursHere neighbours inside
    obtain rfl := distinctSame distinct.1 neighbours.lowIn inside lowSame
    rw [highSame, lineAlone]
    obtain ⟨first, second, around, wl, wh, rfl, rfl, rfl⟩ := atLow
    obtain ⟨same, same'⟩ := neighboursHere around member
    rw [same, same', lineAlone]
    exact if_pos same
  rw [zero] at one
  exact zero_ne_one one

/- A table gives the right values where its names are in the order of their numbers; and only there, if no number has two
names. -/
theorem tableInterpolates (names : Names) :
    (names.Increasing → names.Meets) ∧ (names.Distinct → names.Meets → names.Increasing) :=
  ⟨increasingMeets, fun distinct meets => ⟨meetsTemps meets distinct, fun _ inside => meetsVolts meets distinct inside⟩⟩

end Get

section Example

def oneVolt : Members Unit := ⟨[(['1'], ())], List.pairwise_singleton _ _⟩

def warm : Names where
  temps := ⟨[(['2', '5'], oneVolt), (['7', '0', '.', '5'], oneVolt)], by decide⟩
  filled := by simp [oneVolt]
  decimal := by decide +kernel

theorem tableInterpolatesWarm : warm.Meets ∧ warm.Increasing := by
  have increasing : warm.Increasing := by
    unfold Names.Increasing
    decide +kernel
  have distinct : warm.Distinct := by
    unfold Names.Distinct
    decide +kernel
  have meets := (tableInterpolates warm).1 increasing
  exact ⟨meets, (tableInterpolates warm).2 distinct meets⟩

/- The temperatures -10, 100 and 25, in the order of their names. -/
def coldHot : Names where
  temps := ⟨[(['-', '1', '0'], oneVolt), (['1', '0', '0'], oneVolt), (['2', '5'], oneVolt)], by decide⟩
  filled := by simp [oneVolt]
  decimal := by decide +kernel

def measured (temp _volt : Name) : Rat := if number temp = 100 then 110 else if number temp = 25 then 1 else 0

/- The table has the power 1 at 25. -/
theorem listedMissed : coldHot.get measured 25 1 0 = some 35 ∧ measured ['2', '5'] ['1'] = 1 ∧ ¬coldHot.Meets := by
  refine ⟨by decide +kernel, by decide +kernel, fun meets => ?_⟩
  have distinct : coldHot.Distinct := by
    unfold Names.Distinct
    decide +kernel
  have sorted := meetsTemps meets distinct
  exact absurd sorted (by decide +kernel)

end Example

end Gvsoc.PowerTable
