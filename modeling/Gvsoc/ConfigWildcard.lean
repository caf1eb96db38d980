import Gvsoc.ConfigTree

/-! What a lookup finds behind `**`. -/
namespace Gvsoc.ConfigTree

abbrev PlainName := { name : Name // name ≠ star ∧ name ≠ doubleStar ∧ '/' ∉ name }

def wildcardPath (names : List Name) : List Char := doubleStar ++ names.flatMap ('/' :: ·)

def Config.Somewhere (c : Config) (names : List Name) : Prop := ∃ p, (c.node (p ++ names)).isSome = true

def Config.Outside (c : Config) (names : List Name) : Prop :=
  ∃ p, (∀ name ∈ names.head?, name ∉ p) ∧ (c.node (p ++ names)).isSome = true

namespace Tree

variable (t : Tree) (names : List Name)

def root : Config := .object t.childs

def Complete : Prop :=
  ∃ result, t.childs.get (wildcardPath names) = some result ∧ (result.isSome = true ↔ t.root.Somewhere names) ∧
    ∀ r ∈ result, ∃ p, r = p ++ names ∧ (t.root.node r).isSome = true

/- There is a name. The last one is not empty, as the path would not say it, or there is nothing to be found with or
without it; and where the path resolves it resolves outside of the members of the first name. -/
def Shown : Prop :=
  names ≠ [] ∧
    if names.getLast? = some [] then ¬t.root.Somewhere names ∧ (names.dropLast ≠ [] → ¬t.root.Outside names.dropLast)
    else t.root.Somewhere names → t.root.Outside names

end Tree

section Split

theorem splitPlain (delimiter : Char) (token name rest : List Char) (plain : delimiter ∉ name) :
    splitLoop delimiter token (name ++ rest) = splitLoop delimiter (token ++ name) rest := by
  induction name generalizing token with
  | nil => simp
  | cons c name rec =>
      obtain ⟨other, plain⟩ := List.ne_and_not_mem_of_not_mem_cons plain
      rw [List.cons_append, splitLoop, if_neg (Ne.symm other), rec _ plain, List.append_assoc, List.singleton_append]

theorem splitNames (token : Name) {names : List Name} (plain : ∀ name ∈ names, '/' ∉ name) :
    splitLoop '/' token (names.flatMap ('/' :: ·)) =
      if (token :: names).getLast? = some [] then (token :: names).dropLast else token :: names := by
  induction names generalizing token with
  | nil => by_cases empty : token = [] <;> simp [splitLoop, empty]
  | cons name rest rec =>
      have split := splitPlain '/' [] name (rest.flatMap ('/' :: ·)) (plain name List.mem_cons_self)
      rw [List.flatMap_cons, List.cons_append, splitLoop, if_pos rfl, split, List.nil_append,
        rec name fun other member => plain other (List.mem_cons_of_mem _ member), List.getLast?_cons_cons]
      split_ifs <;> rfl

theorem pathSplit {names : List Name} (plain : ∀ name ∈ names, '/' ∉ name) :
    splitName (wildcardPath names) '/' = doubleStar :: if names.getLast? = some [] then names.dropLast else names := by
  unfold splitName wildcardPath
  rw [splitPlain '/' [] doubleStar _ (by decide), List.nil_append, splitNames doubleStar plain]
  cases names with
  | nil => rfl
  | cons name rest =>
      rw [List.getLast?_cons_cons]
      split_ifs <;> rfl

end Split

section Members

variable {key name : Name} {child : Config} {rest : Childs} {p q : Position}

theorem nodeCons : (Config.object (.cons key child rest)).node (name :: p) =
    if key = name then child.node p else (Config.object rest).node (name :: p) := by
  simp only [Config.node, Config.member, Childs.find]
  split_ifs <;> rfl

theorem nodeNone (absent : name ∉ rest.names) : (Config.object rest).node (name :: p) = none := by
  induction rest using Childs.rec (motive_1 := fun _ => True) with
  | nil => rfl
  | cons key child rest _ rec =>
      obtain ⟨other, absent⟩ := List.ne_and_not_mem_of_not_mem_cons absent
      rw [nodeCons, if_neg (Ne.symm other), rec absent]
  | _ => trivial

theorem ownNone (ordered : (Childs.cons key child rest).Ordered) : (Config.object rest).node (key :: p) = none :=
  nodeNone fun member => List.lt_irrefl key (ordered.1 key member)

end Members

section Plain

/- A path without wildcards leads to the node at it. -/
mutual

theorem configPlain (c : Config) {names : List Name} (plain : ∀ name ∈ names, name ≠ star ∧ name ≠ doubleStar) :
    c.getFromList names = some (if (c.node names).isSome then some names else none) := by
  cases names with
  | nil => cases c <;> rfl
  | cons name rest =>
      cases c with
      | object childs =>
          rw [Config.getFromList, if_neg (List.cons_ne_nil _ _)]
          exact childsPlain childs plain
      | _ => rfl

theorem childsPlain (childs : Childs) {name : Name} {names : List Name}
    (plain : ∀ other ∈ name :: names, other ≠ star ∧ other ≠ doubleStar) :
    childs.scan (name :: names) none = some (if ((Config.object childs).node (name :: names)).isSome then some (name :: names) else none) := by
  have first : firstName (name :: names) = (name, 0) := if_pos (plain name List.mem_cons_self)
  have other := plain name List.mem_cons_self
  cases childs with
  | nil => rfl
  | cons key child rest =>
      have inner := configPlain child fun other member => plain other (List.mem_cons_of_mem _ member)
      rw [nodeCons, Childs.scan, first]
      by_cases same : key = name
      · subst same
        cases found : (child.node names).isSome <;> simp [namesFrom, inner, found]
      · have outer := childsPlain rest plain
        simp [Ne.symm same, same, other, outer]

end

end Plain

def Config.Seen (c : Config) (name : Name) (names : List Name) : Option Position → Prop
  | none => ∀ p, name ∉ p → (c.node (p ++ name :: names)).isSome = false
  | some r => ∃ p, name ∉ p ∧ r = p ++ name :: names ∧ (c.node r).isSome = true

section Seen

variable {key name : Name} {names : List Name} {child : Config} {rest : Childs} {r : Position} {result : Option Position}

theorem seenRest (ordered : (Childs.cons key child rest).Ordered)
    (own : ∀ p q, name ∉ p → p ++ name :: names = key :: q → (child.node q).isSome = false)
    (seen : (Config.object rest).Seen name names result) : (Config.object (.cons key child rest)).Seen name names result := by
  cases result with
  | none =>
      intro p apart
      have unseen := seen p apart
      obtain ⟨k, q, shape⟩ := List.exists_cons_of_ne_nil (l := p ++ name :: names) (by simp)
      rw [shape] at unseen ⊢
      rw [nodeCons]
      split_ifs with same
      · exact own p q apart (same ▸ shape)
      · exact unseen
  | some r =>
      obtain ⟨p, apart, led, found⟩ := seen
      refine ⟨p, apart, led, ?_⟩
      obtain ⟨k, q, shape⟩ := List.exists_cons_of_ne_nil (l := r) (by simp [led])
      rw [shape] at found ⊢
      rw [nodeCons]
      split_ifs with same
      · rw [← same, ownNone ordered] at found
        contradiction
      · exact found

theorem seenOwn (found : (child.node names).isSome = true) :
    (Config.object (.cons name child rest)).Seen name names (some (name :: names)) := by
  refine ⟨[], List.not_mem_nil, rfl, ?_⟩
  rw [nodeCons, if_pos rfl]
  exact found

theorem seenInside (other : key ≠ name) (seen : child.Seen name names (some r)) :
    (Config.object (.cons key child rest)).Seen name names (some (key :: r)) := by
  obtain ⟨p, apart, rfl, found⟩ := seen
  refine ⟨key :: p, by simp [apart, Ne.symm other], rfl, ?_⟩
  rw [nodeCons, if_pos rfl]
  exact found

theorem ownPast (missing : (child.node names).isSome = false) :
    ∀ p q, name ∉ p → p ++ name :: names = name :: q → (child.node q).isSome = false := by
  intro p q apart shape
  cases p with
  | nil =>
      cases shape
      exact missing
  | cons k p =>
      cases shape
      exact absurd List.mem_cons_self apart

theorem ownBeyond (other : key ≠ name) (seen : child.Seen name names none) :
    ∀ p q, name ∉ p → p ++ name :: names = key :: q → (child.node q).isSome = false := by
  intro p q apart shape
  cases p with
  | nil =>
      cases shape
      contradiction
  | cons k p =>
      cases shape
      exact seen p fun member => apart (List.mem_cons_of_mem _ member)

end Seen

section Wild

mutual

theorem configWild (c : Config) {name : Name} {names : List Name} (ordered : c.Ordered)
    (plain : ∀ other ∈ name :: names, other ≠ star ∧ other ≠ doubleStar) :
    ∃ result, c.getFromList (doubleStar :: name :: names) = some result ∧ c.Seen name names result := by
  cases c with
  | object childs =>
      rw [Config.getFromList, if_neg (List.cons_ne_nil _ _)]
      exact childsWild childs ordered plain
  | _ => exact ⟨none, rfl, fun p _ => by cases p <;> rfl⟩

theorem childsWild (childs : Childs) {name : Name} {names : List Name} (ordered : childs.Ordered)
    (plain : ∀ other ∈ name :: names, other ≠ star ∧ other ≠ doubleStar) :
    ∃ result, childs.scan (doubleStar :: name :: names) none = some result ∧ (Config.object childs).Seen name names result := by
  have first : firstName (doubleStar :: name :: names) = (name, 1) := by
    simp [firstName, plain name List.mem_cons_self]
  have other : doubleStar ≠ star := by decide
  cases childs with
  | nil => exact ⟨none, rfl, fun p _ => by cases p <;> rfl⟩
  | cons key child rest =>
      obtain ⟨later, scanned, seen⟩ := childsWild rest ordered.2.2 plain
      rw [Childs.scan, first]
      by_cases same : name = key
      · subst same
        have inner := configPlain child fun other member => plain other (List.mem_cons_of_mem _ member)
        cases found : (child.node names).isSome with
        | true => exact ⟨some (name :: names), by simp [namesFrom, inner, found], seenOwn found⟩
        | false => exact ⟨later, by simp [namesFrom, inner, found, scanned], seenRest ordered (ownPast found) seen⟩
      · obtain ⟨inner, looked, inside⟩ := configWild child ordered.2.1 plain
        cases inner with
        | some r => exact ⟨some (key :: r), by simp [same, other, looked], seenInside (Ne.symm same) inside⟩
        | none => exact ⟨later, by simp [same, other, looked, scanned], seenRest ordered (ownBeyond (Ne.symm same) inside) seen⟩

end

end Wild

section Bare

theorem emptyCons {key : Name} {child : Config} {rest : Childs} (ordered : (Childs.cons key child rest).Ordered) :
    (Config.object (.cons key child rest)).Somewhere [[]] ↔
      key = [] ∨ child.Somewhere [[]] ∨ (Config.object rest).Somewhere [[]] := by
  constructor
  · rintro ⟨p, found⟩
    obtain ⟨k, q, shape⟩ := List.exists_cons_of_ne_nil (l := p ++ [[]]) (by simp)
    rw [shape, nodeCons] at found
    split_ifs at found with same
    · subst same
      cases p with
      | nil => exact .inl (by cases shape; rfl)
      | cons k p =>
          cases shape
          exact .inr (.inl ⟨p, found⟩)
    · exact .inr (.inr ⟨p, by rwa [shape]⟩)
  · rintro (rfl | ⟨p, found⟩ | ⟨p, found⟩)
    · exact ⟨[], by simp [nodeCons, Config.node]⟩
    · refine ⟨key :: p, ?_⟩
      rw [List.cons_append, nodeCons, if_pos rfl]
      exact found
    · refine ⟨p, ?_⟩
      obtain ⟨k, q, shape⟩ := List.exists_cons_of_ne_nil (l := p ++ [[]]) (by simp)
      rw [shape] at found ⊢
      rw [nodeCons]
      split_ifs with same
      · rw [← same, ownNone ordered] at found
        contradiction
      · exact found

mutual

/- Without a name behind `**` no node is found, and a member of an empty name is taken for what is looked up. -/
theorem configBare (c : Config) (ordered : c.Ordered) :
    c.getFromList [doubleStar] = none ∧ c.Somewhere [[]] ∨ c.getFromList [doubleStar] = some none ∧ ¬c.Somewhere [[]] := by
  cases c with
  | object childs =>
      rw [Config.getFromList, if_neg (List.cons_ne_nil _ _)]
      exact childsBare childs ordered
  | _ =>
      refine .inr ⟨rfl, ?_⟩
      rintro ⟨p, found⟩
      cases p <;> contradiction

theorem childsBare (childs : Childs) (ordered : childs.Ordered) :
    childs.scan [doubleStar] none = none ∧ (Config.object childs).Somewhere [[]] ∨
      childs.scan [doubleStar] none = some none ∧ ¬(Config.object childs).Somewhere [[]] := by
  have first : firstName [doubleStar] = ([], 1) := rfl
  have other : doubleStar ≠ star := by decide
  cases childs with
  | nil =>
      refine .inr ⟨rfl, ?_⟩
      rintro ⟨p, found⟩
      cases p <;> contradiction
  | cons key child rest =>
      rw [Childs.scan, first, emptyCons ordered]
      by_cases empty : key = []
      · exact .inl (by simp [empty, namesFrom])
      · rcases configBare child ordered.2.1 with ⟨inner, inside⟩ | ⟨inner, inside⟩
        · exact .inl (by simp [Ne.symm empty, other, inner, inside])
        · rcases childsBare rest ordered.2.2 with ⟨outer, beyond⟩ | ⟨outer, beyond⟩
          · exact .inl (by simp [Ne.symm empty, other, inner, outer, beyond])
          · exact .inr (by simp [Ne.symm empty, empty, other, inner, outer, inside, beyond])

end

end Bare

section Lookup

variable {t : Tree} {name : Name} {names rest : List Name} {result : Option Position}

theorem seenOutside {c : Config} (seen : c.Seen name rest result) : result.isSome = true ↔ c.Outside (name :: rest) := by
  cases result with
  | none =>
      refine iff_of_false (by simp) ?_
      rintro ⟨p, apart, found⟩
      rw [seen p (apart name rfl)] at found
      contradiction
  | some r =>
      obtain ⟨p, apart, rfl, found⟩ := seen
      refine iff_of_true rfl ⟨p, fun other head => ?_, found⟩
      cases head
      exact apart

theorem outsideSomewhere {c : Config} (outside : c.Outside names) : c.Somewhere names := by
  obtain ⟨p, -, found⟩ := outside
  exact ⟨p, found⟩

theorem completeIff (got : t.childs.get (wildcardPath names) = some result) :
    t.Complete names ↔ (result.isSome = true ↔ t.root.Somewhere names) ∧
      ∀ r ∈ result, ∃ p, r = p ++ names ∧ (t.root.node r).isSome = true := by
  unfold Tree.Complete
  rw [got]
  simp only [Option.some.injEq, existsAndEq, true_and]

theorem saidComplete (got : t.childs.get (wildcardPath (name :: rest)) = some result) (seen : t.root.Seen name rest result) :
    t.Complete (name :: rest) ↔ (t.root.Somewhere (name :: rest) → t.root.Outside (name :: rest)) := by
  rw [completeIff got, seenOutside seen]
  constructor
  · intro complete
    exact complete.1.mpr
  · intro shown
    refine ⟨⟨outsideSomewhere, shown⟩, fun r found => ?_⟩
    cases found
    obtain ⟨p, -, led, found⟩ := seen
    exact ⟨p, led, found⟩

/- The path leaves the last name out. The position that is found for the others would end with it, and begin inside of the
first name. -/
theorem unsaidComplete (last : names = name :: rest ++ [[]]) (got : t.childs.get (wildcardPath names) = some result)
    (seen : t.root.Seen name rest result) :
    t.Complete names ↔ ¬t.root.Somewhere names ∧ ¬t.root.Outside (name :: rest) := by
  rw [completeIff got, ← seenOutside seen]
  cases result with
  | none => simp
  | some r =>
      refine iff_of_false ?_ (by simp)
      rintro ⟨-, led⟩
      obtain ⟨p, apart, shape, -⟩ := seen
      obtain ⟨q, again, -⟩ := led r rfl
      rw [shape, last] at again
      have longer : p.length = (q ++ [name]).length := by
        have lengths := congrArg List.length again
        simp only [List.length_append, List.length_cons, List.length_nil] at lengths ⊢
        omega
      have halves : p ++ (name :: rest) = (q ++ [name]) ++ (rest ++ [[]]) := by simpa using again
      have before := (List.append_inj halves longer).1
      rw [before] at apart
      simp at apart

theorem getSeen (plain : ∀ other ∈ name :: rest, other ≠ star ∧ other ≠ doubleStar ∧ '/' ∉ other)
    (split : splitName (wildcardPath names) '/' = doubleStar :: name :: rest) :
    ∃ result, t.childs.get (wildcardPath names) = some result ∧ t.root.Seen name rest result := by
  unfold Childs.get
  rw [split]
  exact configWild t.root t.ordered fun other member => ⟨(plain other member).1, (plain other member).2.1⟩

theorem bareComplete (split : splitName (wildcardPath names) '/' = [doubleStar]) :
    t.Complete names ↔ ¬t.root.Somewhere [[]] ∧ ¬t.root.Somewhere names := by
  have got : t.childs.get (wildcardPath names) = t.root.getFromList [doubleStar] := congrArg _ split
  rcases configBare t.root t.ordered with ⟨looked, empty⟩ | ⟨looked, empty⟩
  · refine iff_of_false ?_ fun neither => neither.1 empty
    rintro ⟨result, done, -⟩
    rw [got, looked] at done
    contradiction
  · rw [completeIff (got.trans looked)]
    simp [empty]

/- A lookup behind `**` is complete where the path is shown outside of the members of its first name. -/
theorem wildcardComplete (t : Tree) (names : List PlainName) :
    t.Complete (names.map Subtype.val) ↔ t.Shown (names.map Subtype.val) := by
  have plain : ∀ other ∈ names.map Subtype.val, other ≠ star ∧ other ≠ doubleStar ∧ '/' ∉ other := by
    intro other member
    obtain ⟨own, -, rfl⟩ := List.mem_map.mp member
    exact own.property
  generalize names.map Subtype.val = names at plain
  have split := pathSplit fun name member => (plain name member).2.2
  unfold Tree.Shown
  by_cases last : names.getLast? = some []
  · obtain ⟨others, rfl⟩ := List.getLast?_eq_some_iff.mp last
    rw [if_pos last, List.dropLast_concat] at split ⊢
    cases others with
    | nil =>
        rw [List.nil_append] at split ⊢
        rw [bareComplete split]
        simp
    | cons name rest =>
        obtain ⟨result, got, seen⟩ := getSeen (fun other member => plain other (List.mem_append_left _ member)) split
        rw [unsaidComplete rfl got seen]
        simp
  · rw [if_neg last] at split ⊢
    cases names with
    | nil =>
        rw [bareComplete split]
        exact iff_of_false (fun neither => neither.2 ⟨[], rfl⟩) fun named => named.1 rfl
    | cons name rest =>
        obtain ⟨result, got, seen⟩ := getSeen plain split
        rw [saidComplete got seen]
        simp

/- `{"a": {"a": {"b": ..}}}` -/
def nested : Tree where
  childs := .cons ['a'] (.object (.cons ['a'] (.object (.cons ['b'] .string .nil)) .nil)) .nil
  ordered := by simp [Childs.Ordered, Config.Ordered, Childs.names]

/- The member `a` of the root has no `b`, and is not searched for another `a`. -/
theorem memberHides : ¬nested.Complete [['a'], ['b']] := by
  have got : nested.childs.get (wildcardPath [['a'], ['b']]) = some none := by decide
  have inside : nested.root.Somewhere [['a'], ['b']] := ⟨[['a']], by decide⟩
  rw [completeIff got]
  intro complete
  have found := complete.1.mpr inside
  contradiction

end Lookup

end Gvsoc.ConfigTree
