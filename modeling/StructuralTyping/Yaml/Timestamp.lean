namespace StructuralTyping.Yaml

/-!
# Points in time

A plain scalar may be a date, or a date with a time of day. Between the two
stands the letter T, and then the time ends in its distance from the mean
time, or a blank, and then it has no distance. Months, days, hours, minutes and
seconds have one digit or two, and the days of each month are counted.
-/

/-- The value of a digit. -/
def digitValue
    (digit : Char) :
    Nat :=
  digit.toNat - '0'.toNat

/-- A number of one digit or two, and the letters behind it. -/
def shortNumber? :
    List Char →
    Option (Nat × List Char)
  | [] => none
  | first :: rest =>
      if first.isDigit then
        match rest with
        | second :: behind =>
            if second.isDigit then
              some (digitValue first * 10 + digitValue second, behind)
            else
              some (digitValue first, rest)
        | [] => some (digitValue first, [])
      else
        none

/-- The letters behind a given one. -/
def afterLetter?
    (letter : Char) :
    List Char →
    Option (List Char)
  | [] => none
  | first :: rest => if first = letter then some rest else none

/-- Whether a year has a leap day. -/
def isLeapYear
    (year : Nat) :
    Bool :=
  year % 4 = 0 && (year % 100 ≠ 0 || year % 400 = 0)

/-- The days of a month; there are none if there is no such month. -/
def daysOfMonth
    (year month : Nat) :
    Nat :=
  if [1, 3, 5, 7, 8, 10, 12].contains month then
    31
  else if [4, 6, 9, 11].contains month then
    30
  else if month = 2 then
    if isLeapYear year then 29 else 28
  else
    0

/-- The letters behind a date, whose year has four digits. -/
def afterDate?
    (letters : List Char) :
    Option (List Char) := do
  let yearDigits := letters.takeWhile Char.isDigit
  let year := yearDigits.foldl (fun year digit => year * 10 + digitValue digit) 0
  let rest ← afterLetter? '-' (letters.drop yearDigits.length)
  let (month, rest) ← shortNumber? rest
  let (day, rest) ← shortNumber? (← afterLetter? '-' rest)
  if yearDigits.length = 4 && 1 ≤ day && day ≤ daysOfMonth year month then
    return rest
  else
    none

/-- The letters behind a fraction of a second, if one stands there. -/
def afterFraction
    (letters : List Char) :
    List Char :=
  match letters with
  | mark :: digit :: rest =>
      if (mark = '.' || mark = ',') && digit.isDigit then
        rest.dropWhile Char.isDigit
      else
        letters
  | _ => letters

/-- The letters behind a time of day. -/
def afterClock?
    (letters : List Char) :
    Option (List Char) := do
  let (hour, rest) ← shortNumber? letters
  let (minute, rest) ← shortNumber? (← afterLetter? ':' rest)
  let (second, rest) ← shortNumber? (← afterLetter? ':' rest)
  if hour < 24 && minute < 60 && second < 60 then
    return afterFraction rest
  else
    none

/-- Whether letters are a distance from the mean time. -/
def isDistance :
    List Char →
    Bool
  | ['Z'] => true
  | [sign, tens, ones, ':', minuteTens, minuteOnes] =>
      (sign = '+' || sign = '-') &&
        [tens, ones, minuteTens, minuteOnes].all Char.isDigit &&
        digitValue tens * 10 + digitValue ones ≤ 24 &&
        digitValue minuteTens * 10 + digitValue minuteOnes ≤ 60
  | _ => false

/-- Whether letters are a point in time. -/
def isTimestamp
    (letters : List Char) :
    Bool :=
  match afterDate? letters with
  | none => false
  | some [] => true
  | some (mark :: rest) =>
      if mark = 'T' || mark = 't' then
        (afterClock? rest).any isDistance
      else if mark = ' ' then
        (afterClock? (rest.dropWhile (· = ' '))).any List.isEmpty
      else
        false

end StructuralTyping.Yaml
