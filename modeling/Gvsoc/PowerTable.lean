import Gvsoc.Interpolation
import Mathlib.Data.Rat.Defs
import Mathlib.Algebra.Order.Field.Rat

/-! The power tables at temperatures and voltages. Numbers of type `double` are exact. -/
namespace Gvsoc.PowerTable
open Interpolation (Chosen line lineAlone)

abbrev Name := List Char

/- `get_childs` of a configuration: the members in the order of their names. -/
structure Members (α : Type) where
  childs : List (Name × α)
  ordered : childs.Pairwise fun a b => a.1 < b.1

section Decimal

def natOf (digits : List Char) : Nat := digits.foldl (fun n c => 10 * n + (c.toNat - '0'.toNat)) 0

def sign : Name → Bool × Name
  | '-' :: rest => (true, rest)
  | '+' :: rest => (false, rest)
  | rest => (false, rest)

def exponent : Name → Option Int
  | [] => some 0
  | c :: rest =>
      let (negative, digits) := sign rest
      if (c = 'e' ∨ c = 'E') ∧ digits ≠ [] ∧ digits.all Char.isDigit then
        some (if negative then -(natOf digits : Int) else natOf digits)
      else none

def fraction : Name → List Char × Name
  | '.' :: rest => (rest.takeWhile Char.isDigit, rest.dropWhile Char.isDigit)
  | rest => ([], rest)

/- `std::stod` of a decimal text. Other texts have no number here. -/
def stod (name : Name) : Option Rat := do
  let (negative, text) := sign name
  let whole := text.takeWhile Char.isDigit
  let (digits, rest) := fraction (text.dropWhile Char.isDigit)
  let e ← exponent rest
  if whole ++ digits = [] then none
  else
    let value := (natOf (whole ++ digits) : Rat) * 10 ^ e.toNat / 10 ^ (digits.length + (-e).toNat)
    some (if negative then -value else value)

end Decimal

/- `any` is not written when there is no such frequency. -/
structure LinearVoltTable where
  volt : Rat
  any : Option Rat

structure LinearTempTable where
  temp : Rat
  voltTables : List LinearVoltTable

structure LinearTable where
  tempTables : List LinearTempTable

def anyName : Name := ['a', 'n', 'y']

section Build

/- The numbers of a frequency are those of its text. A constructor that throws builds no table. -/
def LinearVoltTable.build (volt : Rat) (config : Members Rat) : Option LinearVoltTable :=
  config.childs.foldlM (fun t x => if x.1 = anyName then some { t with any := some x.2 } else none) ⟨volt, none⟩

def LinearTempTable.build (temp : Rat) (config : Members (Members Rat)) : Option LinearTempTable := do
  let voltTables ← config.childs.mapM fun x => do LinearVoltTable.build (← stod x.1) x.2
  some ⟨temp, voltTables⟩

def LinearTable.build (config : Members (Members (Members Rat))) : Option LinearTable := do
  let tempTables ← config.childs.mapM fun x => do LinearTempTable.build (← stod x.1) x.2
  some ⟨tempTables⟩

end Build

section Get

variable {α : Type} (key : α → Rat) (value : α → Option Rat) (x : Rat)

/- The loop over the tables, with the index of the low one. An index that is `-1` is none. -/
def search : Nat → Option Nat → List α → Option Nat × Option Nat
  | _, low, [] => (low, none)
  | i, low, t :: rest =>
      if key t = x then (some i, some i)
      else if x < key t then (low, some i)
      else search (i + 1) (some i) rest

def interpolate (tables : List α) : Option Rat :=
  let (low, high) := search key x 0 none tables
  let high := high.or low
  let low := low.or high
  match low, high with
  | some low, some high => do
      let lowTable ← tables[low]?
      if high = low then value lowTable
      else do
        let highTable ← tables[high]?
        let valueAtLow ← value lowTable
        let valueAtHigh ← value highTable
        let ratio := (x - key lowTable) / (key highTable - key lowTable)
        some ((valueAtHigh - valueAtLow) * ratio + valueAtLow)
  | _, _ => none

end Get

def LinearVoltTable.get (t : LinearVoltTable) (_frequency : Rat) : Option Rat := t.any

def LinearTempTable.get (t : LinearTempTable) (volt frequency : Rat) : Option Rat :=
  interpolate LinearVoltTable.volt (fun u => u.get frequency) volt t.voltTables

def LinearTable.get (t : LinearTable) (temp volt frequency : Rat) : Option Rat :=
  interpolate LinearTempTable.temp (fun u => u.get volt frequency) temp t.tempTables

section Search

variable {α : Type} {key : α → Rat} {value : α → Option Rat} {x : Rat} {tables : List α}

def lastIndex (front : List α) : Option Nat := if front = [] then none else some (front.length - 1)

theorem searchStops (key : α → Rat) (x : Rat) (passed rest : List α) (below : ∀ q ∈ passed, key q < x) :
    ∃ front, (∀ q ∈ front, key q < x) ∧
      ((passed ++ rest = front ∧ search key x passed.length (lastIndex passed) rest = (lastIndex front, none)) ∨
        ∃ t later, passed ++ rest = front ++ t :: later ∧
          ((key t = x ∧ search key x passed.length (lastIndex passed) rest = (some front.length, some front.length)) ∨
            (x < key t ∧ search key x passed.length (lastIndex passed) rest = (lastIndex front, some front.length)))) := by
  induction rest generalizing passed with
  | nil => exact ⟨passed, below, .inl ⟨List.append_nil passed, rfl⟩⟩
  | cons t rest rec =>
      rw [search]
      by_cases here : key t = x
      · exact ⟨passed, below, .inr ⟨t, rest, rfl, .inl ⟨here, if_pos here⟩⟩⟩
      · by_cases beyond : x < key t
        · exact ⟨passed, below, .inr ⟨t, rest, rfl, .inr ⟨beyond, by rw [if_neg here, if_pos beyond]⟩⟩⟩
        · have shorter := rec (passed ++ [t]) fun q inside => by
            rcases List.mem_append.mp inside with old | new
            · exact below q old
            · rw [List.mem_singleton.mp new]
              exact lt_of_le_of_ne (not_lt.mp beyond) here
          rw [if_neg here, if_neg beyond]
          simpa [lastIndex] using shorter

theorem lastIndexConcat (front : List α) (p : α) : lastIndex (front ++ [p]) = some front.length := by simp [lastIndex]

theorem interpolateChosen (key : α → Rat) (value : α → Option Rat) (x : Rat) (nonempty : tables ≠ []) :
    ∃ low high, Chosen key x tables low high ∧
      interpolate key value x tables = (value low).bind fun vl => (value high).map fun vh => line (key low) vl (key high) vh x := by
  have alone (t : α) : value t = (value t).bind fun vl => (value t).map fun vh => line (key t) vl (key t) vh x := by
    cases value t with
    | none => rfl
    | some v => simp [lineAlone]
  obtain ⟨front, below, stops⟩ := searchStops key x [] tables (by simp)
  simp only [List.nil_append, List.length_nil, show lastIndex ([] : List α) = none from rfl] at stops
  unfold interpolate
  rcases stops with ⟨rfl, found⟩ | ⟨t, later, rfl, ⟨here, found⟩ | ⟨beyond, found⟩⟩
  · obtain ⟨front, p, rfl⟩ := (List.eq_nil_or_concat tables).resolve_left nonempty
    rw [List.concat_eq_append] at below found ⊢
    refine ⟨p, p, .last below, ?_⟩
    rw [found, lastIndexConcat]
    simpa using alone p
  · refine ⟨t, t, .here below here, ?_⟩
    rw [found]
    simpa using alone t
  · rcases List.eq_nil_or_concat front with rfl | ⟨front, p, rfl⟩
    · refine ⟨t, t, .first beyond, ?_⟩
      rw [found]
      simpa [lastIndex] using alone t
    · rw [List.concat_eq_append] at below found ⊢
      have shape : front ++ [p] ++ t :: later = front ++ p :: t :: later := by simp
      refine ⟨p, t, shape ▸ .between below beyond, ?_⟩
      have first : (front ++ p :: t :: later)[front.length]? = some p := by simp
      have second : (front ++ p :: t :: later)[front.length + 1]? = some t := by simp
      rw [found, lastIndexConcat, shape, List.length_append, List.length_singleton]
      simp only [Option.or_some, Option.getD_some, first, second, Option.bind_eq_bind, Option.bind_some, Nat.succ_ne_self, if_false, line]
      cases value p <;> cases value t <;> rfl

end Search

end Gvsoc.PowerTable
