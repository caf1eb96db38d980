import Mathlib.Data.List.Basic

/-! `I2c_bus`: open-drain lines. What the devices drive is resolved to one value, and each change of it is sent to all of them. -/
namespace Gvsoc.I2cBus

structure Pair where
  scl : Int
  sda : Int
  deriving DecidableEq, Repr

/- `values` is a map: it has one entry for each device that drove something. -/
structure Bus where
  values : List (Int × Pair)
  busScl : Int
  busSda : Int
  pendingResolve : Bool
  doResolve : Bool
  deriving Repr

/- A call of `sync` by a device, and all calls that are made from inside of it: for each broadcast that it causes, and for each
device that is told, the calls that this device makes before it returns. A device that is not listed makes none. -/
inductive Call
  | sync (scl sda id : Int) (broadcasts : List (List (List Call)))

structure World where
  bus : Bus
  driven : List (Int × Pair)
  broadcasts : List Pair
  heard : List (Int × Pair)
  deriving Repr

def Bus.build (doResolve : Bool) : Bus := ⟨[], 1, 1, false, doResolve⟩

def World.build (doResolve : Bool) : World := ⟨Bus.build doResolve, [], [], []⟩

namespace World

variable (w : World)

def drive (id : Int) (value : Pair) : World :=
  { w with
    bus := { w.bus with values := w.bus.values.filter (fun entry => entry.1 ≠ id) ++ [(id, value)], doResolve := true }
    driven := w.driven ++ [(id, value)] }

def resolved : Pair :=
  w.bus.values.foldl (fun res entry => ⟨if entry.2.scl = 0 then 0 else res.scl, if entry.2.sda = 0 then 0 else res.sda⟩) ⟨1, 1⟩

def changed : Prop := w.resolved.scl ≠ w.bus.busScl ∨ w.resolved.sda ≠ w.bus.busSda

instance : Decidable w.changed := inferInstanceAs (Decidable (_ ∨ _))

def set (value : Pair) : World :=
  { w with bus := { w.bus with busScl := value.scl, busSda := value.sda }, broadcasts := w.broadcasts ++ [value] }

def hear (value : Pair) (device : Int) : World := { w with heard := w.heard ++ [(device, value)] }

def hearAll (value : Pair) (devices : List Int) : World := devices.foldl (fun w device => w.hear value device) w

def clear : World := { w with bus := { w.bus with doResolve := false } }

def lock (pending : Bool) : World := { w with bus := { w.bus with pendingResolve := pending } }

end World

mutual

def sync (listeners : List Int) (w : World) : Call → World
  | .sync scl sda id broadcasts =>
      let w := w.drive id ⟨scl, sda⟩
      if w.bus.pendingResolve = true then w
      else (updates listeners (w.lock true) broadcasts).lock false

/- The loop of `sync`. Where no more calls are to come, it ends after one more turn. -/
def updates (listeners : List Int) (w : World) : List (List (List Call)) → World
  | [] =>
      if w.bus.doResolve = true then
        let w := w.clear
        if w.changed then (w.set w.resolved).hearAll w.resolved listeners else w
      else w
  | calls :: later =>
      if w.bus.doResolve = true then
        let w := w.clear
        if w.changed then updates listeners (broadcast listeners listeners w.resolved (w.set w.resolved) calls) later else w
      else w

/- `told` are the devices that are still to be told. -/
def broadcast (listeners told : List Int) (value : Pair) (w : World) : List (List Call) → World
  | [] => w.hearAll value told
  | calls :: others =>
      match told with
      | [] => w
      | device :: rest => broadcast listeners rest value (callback listeners (w.hear value device) calls) others

def callback (listeners : List Int) (w : World) : List Call → World
  | [] => w
  | call :: rest => callback listeners (sync listeners w call) rest

end

def run (listeners : List Int) (w : World) (calls : List Call) : World := calls.foldl (sync listeners) w

end Gvsoc.I2cBus
