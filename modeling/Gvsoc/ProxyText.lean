import Gvsoc.NinaSession
import Mathlib.Data.List.TakeWhile

/-! The texts between a client and the command proxy: numbers, the line of a command, and the lines of the replies. -/
namespace Gvsoc.ProxyText
open Bytes (Byte)
open CText (ch ascii isSpace digitOf hexDigit scan scanDigits sign cString)

def lf : Byte := 0x0a

section Numbers

def number (base n : Nat) : List Byte := if n = 0 then [ch '0'] else (Nat.digits base n).reverse.map (hexDigit false)

def decimal (n : Int) : List Byte := if n < 0 then ch '-' :: number 10 n.natAbs else number 10 n.natAbs

/- `0x%x`, and what `%p` prints of a pointer that is not null. -/
def hexadecimal (n : Nat) : List Byte := ascii "0x" ++ number 16 n

/- The base 0 of `strtol` is the one the text tells. -/
def baseOf (text : List Byte) : Nat :=
  if text.head? ≠ some (ch '0') then 10
  else if text[1]? = some (ch 'x') ∨ text[1]? = some (ch 'X') then 16
  else 8

def strtol (text : List Byte) : Int :=
  ((scan (baseOf (sign (text.dropWhile isSpace)).2) text).map fun n => max (-2 ^ 63) (min n.1 (2 ^ 63 - 1))).getD 0

def pySpace (c : Byte) : Bool := isSpace c || (0x1c ≤ c && c ≤ 0x1f)

/- `int` of a text in Python, which has no underscores here. -/
def pyInt (text : List Byte) : Option Int :=
  (scanDigits 10 (text.dropWhile pySpace)).bind fun (n, rest) => if rest.all pySpace then some n else none

theorem digitOfHexDigit : ∀ base < 17, ∀ d < base, digitOf base (hexDigit false d) = some d := by decide +kernel

theorem hexDigitPlain : ∀ d < 16, hexDigit false d ≠ ch '-' ∧ hexDigit false d ≠ ch '+' ∧ hexDigit false d ≠ ch 'x' ∧
    hexDigit false d ≠ ch 'X' ∧ pySpace (hexDigit false d) = false := by decide +kernel

variable {base : Nat} {c : Byte} {rest : List Byte}

theorem numberDigit {n : Nat} (two : 1 < base) (inside : c ∈ number base n) : ∃ d < base, c = hexDigit false d := by
  unfold number at inside
  split at inside
  · exact ⟨0, by omega, List.mem_singleton.mp inside⟩
  · obtain ⟨d, member, rfl⟩ := List.mem_map.mp inside
    exact ⟨d, Nat.digits_lt_base two (List.mem_reverse.mp member), rfl⟩

theorem numberPositive (base n : Nat) : number base n ≠ [] := by
  unfold number
  split
  · simp
  · rename_i positive
    simpa [Nat.digits_eq_nil_iff_eq_zero] using positive

theorem decimalPositive (n : Int) : decimal n ≠ [] := by
  unfold decimal
  split
  · exact List.cons_ne_nil _ _
  · exact numberPositive 10 n.natAbs

theorem numberValue (base n : Nat) (two : 1 < base) (small : base < 17) :
    Nat.ofDigits (base : Int) ((number base n).filterMap (digitOf base)).reverse = n := by
  rw [← Nat.coe_ofDigits]
  congr 1
  have digit : ∀ d < base, digitOf base (hexDigit false d) = some d := digitOfHexDigit base small
  have read : ∀ list : List Nat, (∀ d ∈ list, d < base) → (list.map (hexDigit false)).filterMap (digitOf base) = list := by
    intro list below
    induction list with
    | nil => rfl
    | cons d rest ih =>
        rw [List.map_cons, List.filterMap_cons_some (digit d (below d (by simp)))]
        rw [ih fun e member => below e (List.mem_cons_of_mem _ member)]
  unfold number
  split
  · rename_i zero
    have one : digitOf base (ch '0') = some 0 := digit 0 (by omega)
    subst zero
    simp [one]
  · rw [read _ fun d member => Nat.digits_lt_base two (List.mem_reverse.mp member), List.reverse_reverse, Nat.ofDigits_digits]

theorem numberTaken (base n : Nat) (two : 1 < base) (small : base < 17) (stop : ∀ c ∈ rest.head?, digitOf base c = none) :
    (number base n ++ rest).takeWhile (fun c => (digitOf base c).isSome) = number base n := by
  have all : ∀ c ∈ number base n, (digitOf base c).isSome = true := by
    intro c inside
    obtain ⟨d, below, rfl⟩ := numberDigit two inside
    rw [digitOfHexDigit base small d below]
    rfl
  rw [List.takeWhile_append_of_pos all]
  cases rest with
  | nil => simp
  | cons c rest =>
      have none : digitOf base c = none := stop c rfl
      simp [none]

theorem signNumber (base n : Nat) (rest : List Byte) (two : 1 < base) (small : base < 17) : sign (number base n ++ rest) = (false, number base n ++ rest) := by
  cases shape : number base n with
  | nil => exact absurd shape (numberPositive base n)
  | cons c more =>
      have inside : c ∈ number base n := by simp [shape]
      obtain ⟨d, below, rfl⟩ := numberDigit two inside
      obtain ⟨minus, plus, -⟩ := hexDigitPlain d (by omega)
      simp [sign, minus, plus]

theorem scanDecimal (n : Int) (rest : List Byte) (stop : ∀ c ∈ rest.head?, digitOf 10 c = none) : scanDigits 10 (decimal n ++ rest) = some (n, rest) := by
  have taken := numberTaken 10 n.natAbs (by decide) (by decide) stop
  have value := numberValue 10 n.natAbs (by decide) (by decide)
  have some := numberPositive 10 n.natAbs
  unfold decimal scanDigits
  by_cases negative : n < 0
  · have signed : sign (ch '-' :: number 10 n.natAbs ++ rest) = (true, number 10 n.natAbs ++ rest) := rfl
    rw [if_pos negative, signed]
    simp only [Nat.reduceEqDiff, if_false, taken, value, if_neg some, if_true, List.drop_left]
    congr
    omega
  · rw [if_neg negative, signNumber 10 _ _ (by decide) (by decide)]
    simp only [Nat.reduceEqDiff, if_false, taken, value, if_neg some, Bool.false_eq_true, List.drop_left]
    congr
    omega

theorem scanHexadecimal (n : Nat) (rest : List Byte) (stop : ∀ c ∈ rest.head?, digitOf 16 c = none) :
    scanDigits 16 (hexadecimal n ++ rest) = some ((n : Int), rest) := by
  have taken := numberTaken 16 n (by decide) (by decide) stop
  have value := numberValue 16 n (by decide) (by decide)
  have some := numberPositive 16 n
  have signed : sign (hexadecimal n ++ rest) = (false, hexadecimal n ++ rest) := rfl
  have dropped : CText.hexPrefix (hexadecimal n ++ rest) = number 16 n ++ rest := rfl
  unfold scanDigits
  rw [signed]
  simp only [if_true, dropped, taken, value, if_neg some, Bool.false_eq_true, if_false, List.drop_left]

theorem numberUnspaced (n : Nat) (two : 1 < base) (small : base < 17) {space : Byte → Bool} (space_is : ∀ c, space c = true → pySpace c = true) :
    (number base n ++ rest).dropWhile space = number base n ++ rest := by
  cases shape : number base n with
  | nil => exact absurd shape (numberPositive base n)
  | cons c more =>
      have inside : c ∈ number base n := by simp [shape]
      obtain ⟨d, below, rfl⟩ := numberDigit two inside
      obtain ⟨-, -, -, -, plain⟩ := hexDigitPlain d (by omega)
      have none : space (hexDigit false d) = false := by
        rw [← Bool.not_eq_true]
        intro spaced
        rw [space_is _ spaced] at plain
        contradiction
      simp [none]

theorem decimalUnspaced (n : Int) (rest : List Byte) {space : Byte → Bool} (space_is : ∀ c, space c = true → pySpace c = true) :
    (decimal n ++ rest).dropWhile space = decimal n ++ rest := by
  unfold decimal
  split
  · have none : space (ch '-') = false := by
      rw [← Bool.not_eq_true]
      exact fun spaced => absurd (space_is _ spaced) (by decide)
    simp [none]
  · exact numberUnspaced _ (by decide) (by decide) space_is

theorem pyIntDecimal (n : Int) (spaces : rest.all pySpace = true) : pyInt (decimal n ++ rest) = some n := by
  have stop : ∀ c ∈ rest.head?, digitOf 10 c = none := by
    intro c first
    have spaced : pySpace c = true := List.all_eq_true.mp spaces c (List.mem_of_mem_head? first)
    have none : ∀ c, pySpace c = true → digitOf 10 c = none := by decide +kernel
    exact none c spaced
  unfold pyInt
  rw [decimalUnspaced n rest fun _ spaced => spaced, scanDecimal n rest stop]
  exact if_pos spaces

theorem spaceOf (c : Byte) (spaced : isSpace c = true) : pySpace c = true := by
  unfold pySpace
  rw [spaced, Bool.true_or]

theorem strtolHexadecimal {n : Nat} (small : n < 2 ^ 63) : strtol (hexadecimal n) = n := by
  have read := scanHexadecimal n [] (by simp)
  have unspaced : (hexadecimal n).dropWhile isSpace = hexadecimal n := rfl
  have signed : sign (hexadecimal n) = (false, hexadecimal n) := rfl
  have told : baseOf (hexadecimal n) = 16 := rfl
  rw [List.append_nil] at read
  unfold strtol scan
  rw [unspaced, signed, told, read]
  show max (-2 ^ 63) (min (n : Int) (2 ^ 63 - 1)) = n
  omega

/- A decimal number begins with a zero only if it is zero. -/
theorem baseOfNumber {n : Nat} (positive : n ≠ 0) : baseOf (number 10 n) = 10 := by
  have some : Nat.digits 10 n ≠ [] := Nat.digits_ne_nil_iff_ne_zero.mpr positive
  have leading := Nat.getLast_digit_ne_zero 10 positive
  have below : (Nat.digits 10 n).getLast some < 10 := Nat.digits_lt_base (by decide) (List.getLast_mem some)
  have other : ∀ d < 10, d ≠ 0 → hexDigit false d ≠ ch '0' := by decide +kernel
  have first : (number 10 n).head? = .some (hexDigit false ((Nat.digits 10 n).getLast some)) := by
    unfold number
    rw [if_neg positive, List.head?_map, List.head?_reverse, List.getLast?_eq_some_getLast some]
    rfl
  unfold baseOf
  rw [first, if_pos]
  exact fun same => other _ below leading (Option.some.inj same)

theorem strtolDecimal {n : Int} (low : -2 ^ 63 ≤ n) (high : n < 2 ^ 63) : strtol (decimal n) = n := by
  by_cases zero : n = 0
  · subst zero
    decide +kernel
  · have read := scanDecimal n [] (by simp)
    have unspaced := decimalUnspaced n [] spaceOf
    have told : baseOf (sign (decimal n)).2 = 10 := by
      have positive : n.natAbs ≠ 0 := by omega
      unfold decimal
      split
      · exact baseOfNumber positive
      · have signed := signNumber 10 n.natAbs [] (by decide) (by decide)
        rw [List.append_nil] at signed
        rw [signed]
        exact baseOfNumber positive
    rw [List.append_nil] at read unspaced
    unfold strtol scan
    rw [unspaced, told, read]
    show max (-2 ^ 63) (min n (2 ^ 63 - 1)) = n
    omega

end Numbers

section Lines

def takeLine : List Byte → Option (List Byte × List Byte)
  | [] => none
  | c :: stream => if c = lf then some ([c], stream) else (takeLine stream).map fun (line, rest) => (c :: line, rest)

/- `fgets`: a line, or as many bytes of it as there is room for. Both wait for more where they give nothing. -/
def fgets : Nat → List Byte → Option (List Byte × List Byte)
  | 0, stream => some ([], stream)
  | _ + 1, [] => none
  | room + 1, c :: stream => if c = lf then some ([c], stream) else (fgets room stream).map fun (line, rest) => (c :: line, rest)

def fieldName (field : List Byte) : List Byte := field.takeWhile (· ≠ ch '=')

def fieldValue (field : List Byte) : List Byte :=
  if ch '=' ∈ field then field.drop ((fieldName field).length + 1) else field

def parseLine (line : List Byte) : List Byte × List Byte :=
  ((cString line).splitOn (ch ';')).foldl (fun found field =>
    if fieldName field = ascii "req" then (fieldValue field, found.2)
    else if fieldName field = ascii "cmd" then (found.1, fieldValue field)
    else found) ([], [])

def words (cmd : List Byte) : List (List Byte) :=
  match cmd.splitOnP isSpace with
  | first :: rest => first :: rest.filter (· ≠ [])
  | [] => []

def commandLine (req : Nat) (cmd : List Byte) : List Byte := ascii "req=" ++ number 10 req ++ ascii ";cmd=" ++ cmd ++ [lf]

def replyText (req : List Byte) (msg : Option (List Byte)) : List Byte :=
  ascii "req=" ++ req ++ (msg.elim [] fun msg => ascii ";msg=" ++ msg) ++ [lf]

def payloadLine (req : List Byte) (size : Int) : List Byte := ascii "req=" ++ req ++ ascii ";payload=" ++ decimal size ++ [lf]

def clean (c : Byte) : Bool := c ≠ 0 && c ≠ lf && c ≠ ch ';' && c < 0x80

variable {line rest stream : List Byte} {room : Nat}

theorem takeLineFirst (unended : lf ∉ line) : takeLine (line ++ lf :: rest) = some (line ++ [lf], rest) := by
  induction line with
  | nil => rfl
  | cons c line ih =>
      have other : c ≠ lf := fun same => unended (by simp [same])
      have next := ih fun inside => unended (List.mem_cons_of_mem _ inside)
      simp only [List.cons_append, takeLine, next, if_neg other, Option.map_some]

theorem fgetsFirst (unended : lf ∉ line) (short : line.length < room) : fgets room (line ++ lf :: rest) = some (line ++ [lf], rest) := by
  induction line generalizing room with
  | nil =>
      obtain ⟨room, rfl⟩ : ∃ n, room = n + 1 := ⟨room - 1, by simp at short; omega⟩
      rfl
  | cons c line ih =>
      rw [List.length_cons] at short
      obtain ⟨room, rfl⟩ : ∃ n, room = n + 1 := ⟨room - 1, by omega⟩
      have other : c ≠ lf := fun same => unended (by simp [same])
      have next := @ih room (fun inside => unended (List.mem_cons_of_mem _ inside)) (by omega)
      simp only [List.cons_append, fgets, next, if_neg other, Option.map_some]

theorem takeLineMore (more : List Byte) (taken : takeLine stream = some (line, rest)) :
    takeLine (stream ++ more) = some (line, rest ++ more) := by
  induction stream generalizing line with
  | nil => contradiction
  | cons c stream ih =>
      rw [List.cons_append]
      unfold takeLine at taken ⊢
      split at taken
      · rename_i last
        cases taken
        rw [if_pos last]
      · rename_i other
        obtain ⟨⟨line', rest'⟩, before, same⟩ := Option.map_eq_some_iff.mp taken
        cases same
        rw [if_neg other, ih before, Option.map_some]

theorem fgetsMore (more : List Byte) (taken : fgets room stream = some (line, rest)) :
    fgets room (stream ++ more) = some (line, rest ++ more) := by
  induction stream generalizing room line with
  | nil =>
      cases room with
      | zero =>
          cases taken
          rfl
      | succ room => contradiction
  | cons c stream ih =>
      cases room with
      | zero =>
          cases taken
          rfl
      | succ room =>
          rw [List.cons_append]
          unfold fgets at taken ⊢
          split at taken
          · rename_i last
            cases taken
            rw [if_pos last]
          · rename_i other
            obtain ⟨⟨line', rest'⟩, before, same⟩ := Option.map_eq_some_iff.mp taken
            cases same
            rw [if_neg other, ih before, Option.map_some]

theorem fieldOf (name value : List Byte) (plain : ch '=' ∉ name) :
    fieldName (name ++ ch '=' :: value) = name ∧ fieldValue (name ++ ch '=' :: value) = value := by
  have all : ∀ c ∈ name, (decide (c ≠ ch '=')) = true := fun c inside => decide_eq_true fun same => plain (same ▸ inside)
  have first : fieldName (name ++ ch '=' :: value) = name := by
    unfold fieldName
    rw [List.takeWhile_append_of_pos all]
    simp
  refine ⟨first, ?_⟩
  have shape : name ++ ch '=' :: value = name ++ [ch '='] ++ value := by simp
  unfold fieldValue
  rw [if_pos (by simp), first, shape, List.drop_left' (by simp)]

theorem numberClean (base n : Nat) (two : 1 < base) (small : base < 17) : (number base n).all clean = true := by
  have plain : ∀ d < 16, clean (hexDigit false d) = true := by decide +kernel
  rw [List.all_eq_true]
  intro c inside
  obtain ⟨d, below, rfl⟩ := numberDigit two inside
  exact plain d (by omega)

theorem decimalClean (n : Int) : (decimal n).all clean = true := by
  have number := numberClean 10 n.natAbs (by decide) (by decide)
  unfold decimal
  split
  · rw [List.all_cons, number]
    decide
  · exact number

theorem decimalNat (n : Nat) : decimal n = number 10 n := if_neg (by omega)

theorem cleanPlain {text : List Byte} (clear : text.all clean = true) : 0#8 ∉ text ∧ lf ∉ text ∧ ch ';' ∉ text ∧ text.all (· < 0x80) = true := by
  have each : ∀ c ∈ text, clean c = true := List.all_eq_true.mp clear
  have no : ∀ c, clean c = false → c ∉ text := fun c unclean inside => by
    rw [each c inside] at unclean
    contradiction
  refine ⟨no _ (by decide), no _ (by decide), no _ (by decide), List.all_eq_true.mpr fun c inside => ?_⟩
  have clear := each c inside
  unfold clean at clear
  rw [Bool.and_eq_true] at clear
  exact clear.2

theorem splitTwo {c : Byte} {one two : List Byte} (first : c ∉ one) (second : c ∉ two) : (one ++ c :: two).splitOn c = [one, two] := by
  rw [List.splitOn_append_cons_self_of_not_mem first, List.splitOn_eq_singleton second]

theorem commandFields (req : Nat) (cmd : List Byte) :
    commandLine req cmd = ascii "req" ++ ch '=' :: number 10 req ++ ch ';' :: (ascii "cmd" ++ ch '=' :: (cmd ++ [lf])) := by
  have first : ascii "req=" = ascii "req" ++ [ch '='] := rfl
  have second : ascii ";cmd=" = ch ';' :: (ascii "cmd" ++ [ch '=']) := rfl
  unfold commandLine
  rw [first, second]
  simp

theorem parseCommandLine (req : Nat) {cmd : List Byte} (clear : cmd.all clean = true) :
    parseLine (commandLine req cmd) = (number 10 req, cmd ++ [lf]) := by
  obtain ⟨numberWhole, -, numberField, -⟩ := cleanPlain (numberClean 10 req (by decide) (by decide))
  obtain ⟨cmdWhole, -, cmdField, -⟩ := cleanPlain clear
  have whole : cString (commandLine req cmd) = commandLine req cmd := by
    have all : ∀ c ∈ commandLine req cmd, (decide (c ≠ 0)) = true := by
      rw [commandFields]
      intro c inside
      refine decide_eq_true fun zero => ?_
      subst zero
      have apart : 0#8 ∉ ascii "req" ∧ 0#8 ∉ ascii "cmd" ∧ 0#8 ≠ ch '=' ∧ 0#8 ≠ ch ';' ∧ 0#8 ≠ lf := by decide
      simp [apart, numberWhole, cmdWhole] at inside
    unfold cString
    exact List.takeWhile_eq_self_iff.mpr all
  have split : (commandLine req cmd).splitOn (ch ';') =
      [ascii "req" ++ ch '=' :: number 10 req, ascii "cmd" ++ ch '=' :: (cmd ++ [lf])] := by
    have apart : ch ';' ∉ ascii "req" ∧ ch ';' ∉ ascii "cmd" ∧ ch ';' ≠ ch '=' ∧ ch ';' ≠ lf := by decide
    rw [commandFields]
    exact splitTwo (by simp [apart, numberField]) (by simp [apart, cmdField])
  obtain ⟨reqName, reqValue⟩ := fieldOf (ascii "req") (number 10 req) (by decide)
  obtain ⟨cmdName, cmdValue⟩ := fieldOf (ascii "cmd") (cmd ++ [lf]) (by decide)
  have other : ascii "cmd" ≠ ascii "req" := by decide
  unfold parseLine
  rw [whole, split]
  simp only [List.foldl_cons, List.foldl_nil, reqName, reqValue, cmdName, cmdValue, if_true, if_neg other]

theorem fgetsCommand (req : Nat) {cmd : List Byte} (clear : cmd.all clean = true) (short : (commandLine req cmd).length ≤ room) :
    fgets room (commandLine req cmd ++ rest) = some (commandLine req cmd, rest) := by
  obtain ⟨-, numberLine, -⟩ := cleanPlain (numberClean 10 req (by decide) (by decide))
  obtain ⟨-, cmdLine, -⟩ := cleanPlain clear
  have apart : lf ∉ ascii "req=" ∧ lf ∉ ascii ";cmd=" := by decide
  unfold commandLine at short ⊢
  rw [List.append_assoc _ [lf], List.singleton_append]
  rw [List.length_append, List.length_singleton] at short
  exact fgetsFirst (by simp [apart, numberLine, cmdLine]) (by omega)

theorem numberTight {n : Nat} (two : 1 < base) (small : base < 17) (inside : c ∈ number base n) : isSpace c = false := by
  obtain ⟨d, below, rfl⟩ := numberDigit two inside
  obtain ⟨-, -, -, -, plain⟩ := hexDigitPlain d (by omega)
  unfold pySpace at plain
  exact (Bool.or_eq_false_iff.mp plain).1

theorem decimalTight {n : Int} (inside : c ∈ decimal n) : isSpace c = false := by
  unfold decimal at inside
  split at inside
  · rcases List.mem_cons.mp inside with rfl | later
    · rfl
    · exact numberTight (by decide) (by decide) later
  · exact numberTight (by decide) (by decide) inside

theorem hexadecimalTight {n : Nat} (inside : c ∈ hexadecimal n) : isSpace c = false := by
  have leading : ∀ c ∈ ascii "0x", isSpace c = false := by decide
  rcases List.mem_append.mp inside with first | later
  · exact leading c first
  · exact numberTight (by decide) (by decide) later

theorem wordsCons {word cmd : List Byte} (tight : ∀ c ∈ word, isSpace c = false) :
    words (word ++ ch ' ' :: cmd) = word :: (words cmd).filter (· ≠ []) := by
  unfold words
  rw [List.splitOnP_append_cons_of_forall_mem tight _ (by decide)]
  cases shape : cmd.splitOnP isSpace with
  | nil => exact absurd shape (List.splitOnP_ne_nil _ _)
  | cons first rest =>
      dsimp only
      rw [List.filter_cons, List.filter_cons, List.filter_filter]
      simp only [Bool.and_self]

theorem wordsLast {word : List Byte} (tight : ∀ c ∈ word, isSpace c = false) : words (word ++ [lf]) = [word] := by
  unfold words
  rw [List.splitOnP_append_cons_of_forall_mem tight _ (by decide)]
  rfl

variable {one two : List Byte}

theorem wordsTwo (first : ∀ c ∈ one, isSpace c = false) (second : ∀ c ∈ two, isSpace c = false) (some : two ≠ []) :
    words (one ++ ch ' ' :: (two ++ [lf])) = [one, two] := by
  rw [wordsCons first, wordsLast second]
  simp [some]

theorem wordsMore (first : ∀ c ∈ one, isSpace c = false) (second : ∀ c ∈ two, isSpace c = false) (some : two ≠ []) (cmd : List Byte) :
    words (one ++ ch ' ' :: (two ++ ch ' ' :: cmd)) = one :: two :: (words cmd).filter (· ≠ []) := by
  rw [wordsCons first, wordsCons second]
  simp [some]

end Lines

end Gvsoc.ProxyText
