/-!
# Shortest decimals

The fewest decimal digits that read back as a given binary floating point number, and of those the
nearest to it. A finite number is `m · 2 ^ q`; the reals that round to it form an interval around
it, whose ends belong to it exactly when `m` is even. All arithmetic is on natural numbers.
-/

namespace ScriptModules.Decimal

/-- A finite binary number without its sign, `mantissa · 2 ^ exponent`. -/
structure Binary where
  mantissa : Nat
  exponent : Int
  /-- The number below is only half as far away as the one above. -/
  narrowBelow : Bool
  deriving DecidableEq, Repr

/-- The decimal number `0.d₁d₂… · 10 ^ point`. -/
structure Digits where
  digits : List Nat
  point : Int
  deriving DecidableEq, Repr

/-- The number that sixty-four bits hold, without the sign; none for the infinite ones and for those
that are no number. -/
def Binary.ofBits (bits : Nat) : Option Binary :=
  let fraction : Nat := bits % Nat.pow 2 52
  let exponent : Nat := bits / Nat.pow 2 52 % Nat.pow 2 11
  if exponent == 2047 then none
  else if exponent == 0 then some ⟨fraction, -1074, false⟩
  else some ⟨fraction + Nat.pow 2 52, (exponent : Int) - 1075, fraction == 0 && 1 < exponent⟩

/-- A fraction. -/
structure Ratio where
  num : Nat
  den : Nat

namespace Ratio

/-- `a · 2 ^ e`. -/
def scaled (a : Nat) (e : Int) : Ratio :=
  if 0 ≤ e then ⟨a * Nat.pow 2 e.toNat, 1⟩ else ⟨a, Nat.pow 2 (-e).toNat⟩

/-- The fraction divided by a power of ten. -/
def shift (r : Ratio) (e : Int) : Ratio :=
  if 0 ≤ e then ⟨r.num, r.den * Nat.pow 10 e.toNat⟩ else ⟨r.num * Nat.pow 10 (-e).toNat, r.den⟩

/-- Comparison with a natural number. -/
def leNat (r : Ratio) (n : Nat) : Bool := r.num ≤ n * r.den

/-- Strict comparison with a natural number. -/
def ltNat (r : Ratio) (n : Nat) : Bool := r.num < n * r.den

/-- Comparison the other way. -/
def natLe (n : Nat) (r : Ratio) : Bool := n * r.den ≤ r.num

/-- Strict comparison the other way. -/
def natLt (n : Nat) (r : Ratio) : Bool := n * r.den < r.num

end Ratio

/-- The digits of a number, most significant first. -/
def digitsOf (n : Nat) : List Nat := (Nat.toDigits 10 n).map fun c => c.toNat - '0'.toNat

/-- The least power of ten above the value, found by trying larger ones and then smaller ones. -/
def pointOf (value : Ratio) : Int :=
  up 400 0
where
  up : Nat → Int → Int
    | 0, k => k
    | n + 1, k => if (value.shift k).ltNat 1 then down 400 k else up n (k + 1)
  down : Nat → Int → Int
    | 0, k => k
    | n + 1, k => if (value.shift (k - 1)).ltNat 1 then down n (k - 1) else k

/-- The decimal with `n` digits next to the value that reads back as it, if there is one. -/
def withDigits (b : Binary) (point : Int) (n : Nat) : Option Digits :=
  let unit := point - n
  let value := (Ratio.scaled (4 * b.mantissa) (b.exponent - 2)).shift unit
  let low :=
    (Ratio.scaled (4 * b.mantissa - if b.narrowBelow then 1 else 2) (b.exponent - 2)).shift unit
  let high := (Ratio.scaled (4 * b.mantissa + 2) (b.exponent - 2)).shift unit
  let even := b.mantissa % 2 == 0
  let inside (d : Nat) : Bool :=
    if even then low.leNat d && Ratio.natLe d high else low.ltNat d && Ratio.natLt d high
  let below := value.num / value.den
  let above := below + 1
  let chosen :=
    match inside below, inside above with
    | true, true =>
      -- the nearer of the two, and the even one if they are equally near
      let twice := 2 * (value.num % value.den)
      if twice < value.den || (twice == value.den && below % 2 == 0) then some below else some above
    | true, false => some below
    | false, true => some above
    | false, false => none
  chosen.map fun d =>
    let digits := digitsOf d
    ⟨digits, point + (digits.length : Int) - n⟩

/-- The first number of digits from `n` on that reads back. -/
def firstFit (b : Binary) (point : Int) : Nat → Nat → Digits
  | 0, _ => ⟨[0], 1⟩
  | tries + 1, n => (withDigits b point n).getD (firstFit b point tries (n + 1))

/-- The decimal without zeros at its end. -/
def Digits.trim (d : Digits) : Digits :=
  { d with digits := (d.digits.reverse.dropWhile (· == 0)).reverse }

/-- The shortest decimal that reads back as the number. -/
def shortest (b : Binary) : Digits :=
  if b.mantissa == 0 then ⟨[0], 1⟩
  else (firstFit b (pointOf (.scaled b.mantissa b.exponent)) 17 1).trim

/-- A digit as a character. -/
def digitChar (d : Nat) : Char := Char.ofNat ('0'.toNat + d)

/-- The text of digits. -/
def digitText (ds : List Nat) : String := String.ofList (ds.map digitChar)

/-- Zeros. -/
def zeros (n : Nat) : String := String.ofList (List.replicate n '0')

/-- Positional notation with at least one digit after the point. -/
def positional (d : Digits) : String :=
  if d.point ≤ 0 then "0." ++ zeros (-d.point).toNat ++ digitText d.digits
  else
    let whole := d.point.toNat
    if d.digits.length ≤ whole then digitText d.digits ++ zeros (whole - d.digits.length) ++ ".0"
    else digitText (d.digits.take whole) ++ "." ++ digitText (d.digits.drop whole)

/-- Notation with an exponent of at least two digits. -/
def exponential (d : Digits) : String :=
  let e := d.point - 1
  let size := toString e.natAbs
  let mantissa := match d.digits with
    | [] => "0"
    | [x] => digitText [x]
    | x :: rest => digitText [x] ++ "." ++ digitText rest
  mantissa ++ "e" ++ (if e < 0 then "-" else "+") ++ (if size.length < 2 then "0" ++ size else size)

/-- The text of a floating point number: positional for magnitudes from `10 ^ -4` up to
`10 ^ 16`. -/
def floatText (x : Float) : String :=
  let bits := x.toBits.toNat
  let sign := if Nat.pow 2 63 ≤ bits then "-" else ""
  match Binary.ofBits bits with
  | none => if bits % Nat.pow 2 52 == 0 then sign ++ "inf" else "nan"
  | some b =>
    let d := shortest b
    sign ++ if -4 < d.point && d.point ≤ 16 then positional d else exponential d

end ScriptModules.Decimal
