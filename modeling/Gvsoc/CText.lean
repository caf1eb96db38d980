import Gvsoc.Bytes
import Mathlib.Data.Nat.Digits.Lemmas
import Mathlib.Data.Int.Basic

/-! Text as C handles it: strings that end at a zero, numbers read by `sscanf`, and `snprintf` into an array. -/
namespace Gvsoc.CText
open Bytes (Byte)

def ch (c : Char) : Byte := BitVec.ofNat 8 c.toNat

def ascii (s : String) : List Byte := s.toList.map ch

def cString (data : List Byte) : List Byte := data.takeWhile (· ≠ 0)

/- `strncmp` with all of a literal is zero. -/
def starts (text : String) (data : List Byte) : Bool := (ascii text).isPrefixOf data

theorem startsApart {one two : String} {data : List Byte} (first : starts one data = true)
    (apart : (ascii one).isPrefixOf (ascii two) = false ∧ (ascii two).isPrefixOf (ascii one) = false) : starts two data = false := by
  by_contra second
  rw [Bool.not_eq_false] at second
  have left := List.isPrefixOf_iff_prefix.mp first
  have right := List.isPrefixOf_iff_prefix.mp second
  rcases Nat.le_total (ascii one).length (ascii two).length with shorter | longer
  · have inside := List.isPrefixOf_iff_prefix.mpr (List.prefix_of_prefix_length_le left right shorter)
    rw [apart.1] at inside
    contradiction
  · have inside := List.isPrefixOf_iff_prefix.mpr (List.prefix_of_prefix_length_le right left longer)
    rw [apart.2] at inside
    contradiction

/- `strncmp` with as much of it as there are bytes. -/
def sameStart (text : String) (data : List Byte) : Bool :=
  data.take (min (ascii text).length data.length) == (ascii text).take data.length

section Scan

def isSpace (c : Byte) : Bool := c == 0x20 || (9 ≤ c && c ≤ 13)

def digitOf (base : Nat) (c : Byte) : Option Nat :=
  let v :=
    if ch '0' ≤ c ∧ c ≤ ch '9' then some (c.toNat - 48)
    else if ch 'a' ≤ c ∧ c ≤ ch 'f' then some (c.toNat - 87)
    else if ch 'A' ≤ c ∧ c ≤ ch 'F' then some (c.toNat - 55)
    else none
  v.filter (· < base)

def sign : List Byte → Bool × List Byte
  | c :: rest => if c = ch '-' then (true, rest) else if c = ch '+' then (false, rest) else (false, c :: rest)
  | [] => (false, [])

def hexPrefix : List Byte → List Byte
  | z :: x :: rest => if z = ch '0' ∧ (x = ch 'x' ∨ x = ch 'X') then rest else z :: x :: rest
  | few => few

def scanDigits (base : Nat) (text : List Byte) : Option (Int × List Byte) :=
  let (negative, text) := sign text
  let text := if base = 16 then hexPrefix text else text
  let digits := text.takeWhile (fun c => (digitOf base c).isSome)
  if digits = [] then none
  else
    let v : Int := Nat.ofDigits base (digits.filterMap (digitOf base)).reverse
    some (if negative then -v else v, text.drop digits.length)

def scan (base : Nat) (text : List Byte) : Option (Int × List Byte) := scanDigits base (text.dropWhile isSpace)

/- `%d` and `atoi` go through a `long`. -/
def toInt (v : Int) : BitVec 32 := BitVec.ofInt 32 (max (-2 ^ 63) (min v (2 ^ 63 - 1)))

/- `%x` goes through an `unsigned long`. -/
def toUnsigned (v : Int) : BitVec 32 := if v.natAbs < 2 ^ 64 then BitVec.ofInt 32 v else BitVec.allOnes 32

def atoi (text : List Byte) : BitVec 32 := ((scan 10 text).map (fun n => toInt n.1)).getD 0

def tokens (separator : Byte) (text : List Byte) : List (List Byte) := (text.splitOn separator).filter (· ≠ [])

end Scan

section Print

def hexDigit (upper : Bool) (n : Nat) : Byte := BitVec.ofNat 8 (if n < 10 then 48 + n else if upper then 55 + n else 87 + n)

def hex (upper : Bool) (width : Nat) (v : BitVec 32) : List Byte :=
  let digits := (Nat.digits 16 v.toNat).reverse.map (hexDigit upper)
  List.replicate (max width 1 - digits.length) (ch '0') ++ digits

theorem hexDigits (v : BitVec 32) : (Nat.digits 16 v.toNat).length ≤ 8 := by
  have bound : v.toNat < 16 ^ 8 := v.isLt
  exact (Nat.digits_length_le_iff (by decide) v.toNat).mpr bound

theorem hexLength (upper : Bool) (v : BitVec 32) : (hex upper 8 v).length = 8 := by
  have digits := hexDigits v
  simp only [hex, List.length_append, List.length_replicate, List.length_map, List.length_reverse]
  omega

theorem hexShort (upper : Bool) (v : BitVec 32) {width : Nat} (small : width ≤ 8) : (hex upper width v).length ≤ 8 := by
  have digits := hexDigits v
  simp only [hex, List.length_append, List.length_replicate, List.length_map, List.length_reverse]
  omega

/- `snprintf` at an index of an array of `size` bytes, nothing where it writes behind the array. The limit is a `size_t`: a
negative one is none. -/
def snprintf (size : Nat) (buf : Nat → Byte) (start : Nat) (limit : Int) (text : List Byte) : Option (Nat → Byte) :=
  let room := (BitVec.ofInt 64 limit).toNat
  if room = 0 then some buf
  else
    let written := text.take (room - 1) ++ [0]
    if start + written.length ≤ size then
      some (fun i => if start ≤ i ∧ i < start + written.length then written.getD (i - start) 0 else buf i)
    else none

/- Texts one after another. The index goes on by their lengths, whether or not they had room. -/
def printAll (size : Nat) : List (List Byte) → (Nat → Byte) → Nat → Option ((Nat → Byte) × Nat)
  | [], buf, ret => some (buf, ret)
  | text :: rest, buf, ret => do
      let buf ← snprintf size buf ret (size - ret) text
      printAll size rest buf (ret + text.length)

variable {size start ret : Nat} {buf : Nat → Byte} {text : List Byte} {texts : List (List Byte)} {limit : Int}

theorem snprintfInside (fits : start + limit ≤ size) (positive : 0 ≤ limit) (small : size < 2 ^ 64) :
    (snprintf size buf start limit text).isSome = true := by
  have room : ((BitVec.ofInt 64 limit).toNat : Int) = limit := by
    rw [BitVec.toNat_ofInt]
    omega
  unfold snprintf
  dsimp only
  split
  · rfl
  · rw [if_pos, Option.isSome_some]
    rw [List.length_append, List.length_take, List.length_singleton]
    omega

theorem snprintfBehind (behind : size ≤ start) (negative : limit < 0) (far : -2 ^ 63 ≤ limit) :
    snprintf size buf start limit text = none := by
  have room : ((BitVec.ofInt 64 limit).toNat : Int) = limit + 2 ^ 64 := by
    rw [BitVec.toNat_ofInt]
    omega
  unfold snprintf
  dsimp only
  rw [if_neg (by omega), if_neg]
  rw [List.length_append, List.length_singleton]
  omega

theorem snprintfPast (whole : text.length < limit) (past : size ≤ start + text.length) (far : limit < 2 ^ 63) :
    snprintf size buf start limit text = none := by
  have room : ((BitVec.ofInt 64 limit).toNat : Int) = limit := by
    rw [BitVec.toNat_ofInt]
    omega
  unfold snprintf
  dsimp only
  rw [if_neg (by omega), if_neg]
  rw [List.length_append, List.length_take, List.length_singleton]
  omega

theorem printAllInside (texts : List (List Byte)) (buf : Nat → Byte) (ret : Nat) (small : size < 2 ^ 32)
    (near : ret ≤ size + 2 ^ 32) (short : ∀ text ∈ texts, text.length ≤ 2 ^ 32) :
    (printAll size texts buf ret).isSome = true ↔ texts = [] ∨ ret + texts.dropLast.flatten.length ≤ size := by
  induction texts generalizing buf ret with
  | nil => simp [printAll]
  | cons text rest ih =>
      simp only [printAll, Option.bind_eq_bind, reduceCtorEq, false_or]
      by_cases inside : ret ≤ size
      · have written : (snprintf size buf ret (size - ret) text).isSome = true := snprintfInside (by omega) (by omega) (by omega)
        obtain ⟨next, done⟩ := Option.isSome_iff_exists.mp written
        have bound := short text (by simp)
        rw [done, Option.bind_some, ih next (ret + text.length) (by omega) fun text member => short text (by simp [member])]
        cases rest with
        | nil => simpa using inside
        | cons other rest =>
            simp only [reduceCtorEq, false_or, List.dropLast_cons_cons, List.flatten_cons, List.length_append]
            omega
      · rw [snprintfBehind (by omega) (by omega) (by omega), Option.bind_none]
        exact iff_of_false (by simp) (by omega)

end Print

end Gvsoc.CText
