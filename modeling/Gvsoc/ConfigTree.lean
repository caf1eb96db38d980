import Mathlib.Data.List.Basic

/-! The trees of a configuration, and how a path looks up one of their nodes. -/
namespace Gvsoc.ConfigTree

abbrev Name := List Char

/- A node is told by the names of the members that lead to it from where a lookup starts. -/
abbrev Position := List Name

mutual

inductive Config where
  | string
  | number
  | bool
  | array
  | object (childs : Childs)

inductive Childs where
  | nil
  | cons (name : Name) (child : Config) (rest : Childs)

end

def star : Name := ['*']
def doubleStar : Name := ['*', '*']

/- `split_name`: an empty name behind the last delimiter is not read. `token` is what `getline` has read of a name. -/
def splitLoop (delimiter : Char) (token : Name) : List Char → List Name
  | [] => if token = [] then [] else [token]
  | c :: rest => if c = delimiter then token :: splitLoop delimiter [] rest else splitLoop delimiter (token ++ [c]) rest

def splitName (s : List Char) (delimiter : Char) : List Name := splitLoop delimiter [] s

def firstName : List Name → Name × Nat
  | [] => ([], 0)
  | x :: rest => if x ≠ star ∧ x ≠ doubleStar then (x, 0) else ((firstName rest).1, (firstName rest).2 + 1)

def namesFrom (list : List Name) (index : Nat) : Option (List Name) := if index ≤ list.length then some (list.drop index) else none

mutual

/- What a lookup returns: no node, or its position. It is undefined when names are read behind the end of the list. -/
def Config.getFromList : Config → List Name → Option (Option Position)
  | .object childs, nameList => if nameList = [] then some (some []) else childs.scan nameList none
  | _, nameList => if nameList = [] then some (some []) else some none

def Childs.scan : Childs → List Name → Option Position → Option (Option Position)
  | .nil, _, result => some result
  | .cons key child rest, nameList, result =>
      if (firstName nameList).1 = key then do
        let list ← namesFrom nameList ((firstName nameList).2 + 1)
        let result := (← child.getFromList list).map (key :: ·)
        if (firstName nameList).2 = 0 ∨ result.isSome then some result else rest.scan nameList result
      else if nameList.head? = some star then do
        let result := (← child.getFromList (nameList.drop 1)).map (key :: ·)
        if result.isSome then some result else rest.scan nameList result
      else if nameList.head? = some doubleStar then do
        let result := (← child.getFromList nameList).map (key :: ·)
        if result.isSome then some result else rest.scan nameList result
      else rest.scan nameList result

end

def Childs.get (childs : Childs) (name : List Char) : Option (Option Position) :=
  (Config.object childs).getFromList (splitName name '/')

section Trees

mutual

def Config.Ordered : Config → Prop
  | .object childs => childs.Ordered
  | _ => True

def Childs.Ordered : Childs → Prop
  | .nil => True
  | .cons name child rest => (∀ other ∈ rest.names, name < other) ∧ child.Ordered ∧ rest.Ordered

def Childs.names : Childs → List Name
  | .nil => []
  | .cons name _ rest => name :: rest.names

end

structure Tree where
  childs : Childs
  ordered : childs.Ordered

def Childs.find (name : Name) : Childs → Option Config
  | .nil => none
  | .cons key child rest => if key = name then some child else rest.find name

def Config.member (name : Name) : Config → Option Config
  | .object childs => childs.find name
  | _ => none

def Config.node : Config → Position → Option Config
  | c, [] => some c
  | c, name :: rest => do (← c.member name).node rest

end Trees

end Gvsoc.ConfigTree
