import Linkage.Config.Toml.Text

namespace Linkage.Toml

open Scanner

def isDigit (c : Char) : Bool := '0' ≤ c && c ≤ '9'

def digitsValue (base : Nat) (digits : List Char) : Nat :=
  digits.foldl (fun n c => n * base + (hexValue? c).getD 0) 0

def digits (p : Char → Bool) : Scanner (List Char) := do
  let first ← next
  if !p first then
    malformed
  loop (fun (done : List Char) => do
    match ← peek with
    | some '_' =>
        let _ ← next
        let c ← next
        if p c then return .inl (c :: done) else malformed
    | some c =>
        if p c then
          let _ ← next
          return .inl (c :: done)
        else
          return .inr done.reverse
    | none => return .inr done.reverse) [first]

def sign : Scanner Bool := do
  if ← accept ['-'] then
    return true
  else
    let _ ← accept ['+']
    return false

def decimalDigits : Scanner (List Char) := do
  if ← accept ['0'] then return ['0'] else digits isDigit

def wholeNumber (negative : Bool) (n : Nat) : Scanner Int :=
  if negative then
    if n ≤ 1 <<< 63 then return -(n : Int) else throw .outOfRange
  else
    if n < 1 <<< 63 then return n else throw .outOfRange

def radixNumber (base : Nat) : Scanner Int := do
  let ds ← digits fun c => (hexValue? c).any (· < base)
  wholeNumber false (digitsValue base ds)

def integer : Scanner Int := do
  if ← accept ['0', 'x'] then
    radixNumber 16
  else if ← accept ['0', 'o'] then
    radixNumber 8
  else if ← accept ['0', 'b'] then
    radixNumber 2
  else
    let negative ← sign
    wholeNumber negative (digitsValue 10 (← decimalDigits))

-- The least number that no finite double is nearest to.
def doubleBound : Nat := 1 <<< 1024 - 1 <<< 970

def isBeyondDouble (n : Nat) (e : Int) : Bool :=
  let magnitude := ((toString n).length : Int) + e
  if n = 0 || magnitude < 300 then
    false
  else if 400 < magnitude then
    true
  else if e < 0 then
    doubleBound * Nat.pow 10 e.natAbs ≤ n
  else
    doubleBound ≤ n * Nat.pow 10 e.natAbs

def exponent : Scanner Int := do
  let negative ← sign
  let n : Int := digitsValue 10 (← digits isDigit)
  return if negative then -n else n

def finiteFloat : Scanner Unit := do
  let negative ← sign
  let whole ← decimalDigits
  let fraction ← if ← accept ['.'] then digits isDigit else pure []
  let hasExponent := (← peek).any fun c => c = 'e' || c = 'E'
  if fraction.isEmpty && !hasExponent then
    malformed
  let e ← if hasExponent then next *> exponent else pure 0
  if !negative && isBeyondDouble (digitsValue 10 (whole ++ fraction)) (e - fraction.length) then
    throw .outOfRange

def specialFloat : Scanner Unit := do
  let _ ← sign
  if !(← accept ['i', 'n', 'f']) then
    expect ['n', 'a', 'n']

def float : Scanner Unit := do
  if (← attempt finiteFloat).isNone then
    specialFloat

def fixedDigits (count least greatest : Nat) : Scanner Nat := do
  let ds ← take count
  if !ds.all isDigit then
    malformed
  let n := digitsValue 10 ds
  if least ≤ n && n ≤ greatest then return n else throw .outOfRange

def daysInMonth (year month : Nat) : Nat :=
  if month = 2 then
    if year % 4 = 0 && (year % 100 ≠ 0 || year % 400 = 0) then 29 else 28
  else if [4, 6, 9, 11].contains month then
    30
  else
    31

def date : Scanner Unit := do
  let year ← fixedDigits 4 0 9999
  expect ['-']
  let month ← fixedDigits 2 1 12
  expect ['-']
  let _ ← fixedDigits 2 1 (daysInMonth year month)

def time : Scanner Unit := do
  let _ ← fixedDigits 2 0 23
  expect [':']
  let _ ← fixedDigits 2 0 59
  expect [':']
  let _ ← fixedDigits 2 0 60
  if ← accept ['.'] then
    if (← takeWhile isDigit).isEmpty then
      malformed

def offset : Scanner Unit := do
  match ← next with
  | 'Z' => return
  | 'z' => return
  | c =>
      if c ≠ '+' && c ≠ '-' then
        malformed
      let _ ← fixedDigits 2 0 23
      expect [':']
      let _ ← fixedDigits 2 0 59

def timeOfDate : Scanner Unit := do
  let c ← next
  if c ≠ 'T' && c ≠ 't' && c ≠ ' ' then
    malformed
  time
  let _ ← attempt offset

def datetime : Scanner Unit := do
  if (← attempt date).isSome then
    let _ ← attempt timeOfDate
  else
    time

end Linkage.Toml
