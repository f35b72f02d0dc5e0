import Mstd.Py
/-!
# Integers of Python in texts

`decimal?` is what `\d` matches, with its value.  `int10` and `int0` are `int(s)` and `int(s, 0)`: digits with single
underscores between them, behind a sign, and for `int0` behind the prefix of a base.
-/
namespace Py

/-- The zeros of the decimal digits; the other nine follow each. -/
def decimalZeros : List Nat :=
  [0x30, 0x660, 0x6F0, 0x7C0, 0x966, 0x9E6, 0xA66, 0xAE6, 0xB66, 0xBE6, 0xC66, 0xCE6, 0xD66, 0xDE6, 0xE50, 0xED0, 0xF20,
    0x1040, 0x1090, 0x17E0, 0x1810, 0x1946, 0x19D0, 0x1A80, 0x1A90, 0x1B50, 0x1BB0, 0x1C40, 0x1C50, 0xA620, 0xA8D0,
    0xA900, 0xA9D0, 0xA9F0, 0xAA50, 0xABF0, 0xFF10, 0x104A0, 0x10D30, 0x11066, 0x110F0, 0x11136, 0x111D0, 0x112F0,
    0x11450, 0x114D0, 0x11650, 0x116C0, 0x11730, 0x118E0, 0x11950, 0x11C50, 0x11D50, 0x11DA0, 0x16A60, 0x16AC0, 0x16B50,
    0x1D7CE, 0x1D7D8, 0x1D7E2, 0x1D7EC, 0x1D7F6, 0x1E140, 0x1E2F0, 0x1E950, 0x1FBF0]

/-- The value of a decimal digit. -/
def decimal? (c : Char) : Option Nat :=
  decimalZeros.findSome? (fun z => if z ≤ c.toNat ∧ c.toNat < z + 10 then some (c.toNat - z) else none)

/-- `\d`. -/
def isDigit (c : Char) : Bool := (decimal? c).isSome

def digit? (base : Nat) (c : Char) : Option Nat :=
  let n := c.toNat
  let value :=
    if let some d := decimal? c then some d
    else if 97 ≤ n ∧ n ≤ 122 then some (n - 87)
    else if 65 ≤ n ∧ n ≤ 90 then some (n - 55)
    else none
  value.filter (· < base)

/-- The rest of a number whose digits so far make up `acc`. -/
def digitsFrom (base acc : Nat) : Str → Option Nat
  | []             => some acc
  | ['_']          => none
  | '_' :: c :: cs => (digit? base c).bind (fun d => digitsFrom base (acc * base + d) cs)
  | c :: cs        => (digit? base c).bind (fun d => digitsFrom base (acc * base + d) cs)

def digits (base : Nat) : Str → Option Nat
  | []      => none
  | c :: cs => (digit? base c).bind (fun d => digitsFrom base d cs)

/-- The most digits that `int` takes, where the base is no power of two. -/
def maxStrDigits : Nat := 4300

def decimalDigits (s : Str) : Option Nat := if (s.filter (· ≠ '_')).length ≤ maxStrDigits then digits 10 s else none

/-- What `int` strips. -/
def isIntSpace (c : Char) : Bool := isSpace c && !(28 ≤ c.toNat && c.toNat ≤ 31)

def strip (space : Char → Bool) (s : Str) : Str := ((s.dropWhile space).reverse.dropWhile space).reverse

/-- A sign, and what `value` makes of the rest. -/
def signed (value : Str → Option Nat) : Str → Option Int
  | '-' :: s => (value s).map (fun n => -(n : Int))
  | '+' :: s => (value s).map Int.ofNat
  | s        => (value s).map Int.ofNat

/-- `int(s)`. -/
def int10 (s : Str) : Option Int := signed decimalDigits (strip isIntSpace s)

/-- The base that a prefix stands for. -/
def prefixBase (c : Char) : Option Nat :=
  if c = 'x' ∨ c = 'X' then some 16
  else if c = 'o' ∨ c = 'O' then some 8
  else if c = 'b' ∨ c = 'B' then some 2
  else none

/-- A number with its prefix; without one, a number that begins with 0 must be 0. -/
def literal (s : Str) : Option Nat :=
  match s with
  | z :: x :: rest =>
    if decimal? z = some 0 then
      match prefixBase x with
      | some base => digits base (if rest.head? = some '_' then rest.tail else rest)
      | none      => (decimalDigits s).filter (· = 0)
    else decimalDigits s
  | _ => decimalDigits s

/-- `int(s, 0)`. -/
def int0 (s : Str) : Option Int := signed literal (strip isIntSpace s)

example : int0 " -0x_1F\n".toList = some (-31) ∧ int0 "1_000".toList = some 1000 ∧ int0 "010".toList = none ∧
    int10 "010".toList = some 10 ∧ int0 "0_0".toList = some 0 ∧ int0 "{0}".toList = none := by decide +kernel

end Py
