import ModuleSurface.Number.Binary64
import ModuleSurface.Text.Lines
import ModuleSurface.Toml.Node

/-!
# Scalar — numbers, truth values and dates of the configuration language

A scalar is told by its text alone.  Digits may be grouped by single underscores; a decimal number
has no needless zero at its start; a date has to be one of the calendar.  Some texts are scalars
though they stand for no number: a prefix of a base without digits, and digits with groups behind
them that only begin and end like groups of digits.  They may stand where nobody reads them.
-/

namespace ModuleSurface.Toml

/-! ## 1. Digits -/

def digit? (base : Nat) (c : Char) : Option Nat :=
  let value :=
    if '0' ≤ c ∧ c ≤ '9' then c.toNat - 48
    else if 'a' ≤ c ∧ c ≤ 'f' then c.toNat - 87
    else if 'A' ≤ c ∧ c ≤ 'F' then c.toNat - 55
    else base
  if value < base then some value else none

/-- The value of some digits, at least one, after a number in front of them. -/
def digits? (base : Nat) (front : Nat) : List Char → Option Nat
  | [] => none
  | [c] => (digit? base c).map (front * base + ·)
  | c :: rest => (digit? base c).bind fun value => digits? base (front * base + value) rest

/-- The digits of a group without the underscores that stand singly between them. -/
def ungroup? (base : Nat) : List Char → Option (List Char)
  | [] => none
  | [c] => if (digit? base c).isSome then some [c] else none
  | c :: '_' :: rest =>
      if (digit? base c).isSome then (ungroup? base rest).map (c :: ·) else none
  | c :: rest => if (digit? base c).isSome then (ungroup? base rest).map (c :: ·) else none

/-- A text without the sign at its start, and whether the sign is a minus. -/
def unsign : List Char → Bool × List Char
  | '-' :: rest => (true, rest)
  | '+' :: rest => (false, rest)
  | text => (false, text)

def decimal? (text : List Char) : Option (List Char) :=
  match text with
  | '0' :: _ :: _ => none
  | _ => ungroup? 10 text

/-! ## 2. Numbers -/

def integer? (text : List Char) : Option Int :=
  let based (base : Nat) (text : List Char) : Option Int :=
    ((ungroup? base text).bind (digits? base 0)).map Int.ofNat
  match text with
  | '0' :: 'x' :: rest => based 16 rest
  | '0' :: 'o' :: rest => based 8 rest
  | '0' :: 'b' :: rest => based 2 rest
  | _ =>
      let (negative, rest) := unsign text
      ((decimal? rest).bind (digits? 10 0)).map fun n => if negative then -(n : Int) else n

/-- The parts of a float: the digits before and behind the point, and the exponent. -/
structure FloatText where
  whole : List Char
  fraction : List Char
  exponent : Int
  deriving DecidableEq, Repr

/-- A text cut at its first letter `e` of either case. -/
def cutExponent : List Char → List Char × Option (List Char)
  | [] => ([], none)
  | c :: rest =>
      if c = 'e' || c = 'E' then ([], some rest)
      else (c :: (cutExponent rest).1, (cutExponent rest).2)

def exponent? : Option (List Char) → Option Int
  | none => some 0
  | some text =>
      let (negative, rest) := unsign text
      ((ungroup? 10 rest).bind (digits? 10 0)).map fun n => if negative then -(n : Int) else n

/-- The float that a text without a sign stands for; it has a fraction, an exponent, or both. -/
def float? (text : List Char) : Option FloatText :=
  let (mantissa, exponentText) := cutExponent text
  (exponent? exponentText).bind fun exponent =>
    match Text.split '.' mantissa with
    | [whole] =>
        if exponentText.isNone then none
        else (decimal? whole).map fun whole => ⟨whole, [], exponent⟩
    | [whole, fraction] =>
        (decimal? whole).bind fun whole =>
          (ungroup? 10 fraction).map fun fraction => ⟨whole, fraction, exponent⟩
    | _ => none

/-- Whether a text stands for a float that is no number of finite size. -/
def isSpecialFloat (text : List Char) : Bool :=
  text == "inf".toList || text == "nan".toList

/-- Whether groups that underscores divide begin with a digit of base sixteen, and end with one but
for the last group. -/
def looksGrouped : List (List Char) → Bool
  | [] => false
  | [group] => group.head?.any fun c => (digit? 16 c).isSome
  | group :: groups =>
      (group.head?.any fun c => (digit? 16 c).isSome) &&
        (group.getLast?.any fun c => (digit? 16 c).isSome) && looksGrouped groups

/-- Whether a text is written like an integer in groups, though they may hold more than digits.
With a blank, a point or an exponent it is not. -/
def looksLikeInteger (text : List Char) : Bool :=
  let body := (unsign text).2
  match body.dropWhile (·.isDigit) with
  | '_' :: rest =>
      body.head? != some '_' && body.head? != some '0' &&
        rest.all (fun c => c != ' ' && c != '.' && c != 'e' && c != 'E') &&
        looksGrouped (Text.split '_' rest)
  | _ => false

/-- Whether a text is the prefix of a base, with no digits behind it. -/
def isBasePrefix (text : List Char) : Bool :=
  text == "0x".toList || text == "0o".toList || text == "0b".toList

def FloatText.inRange (x : FloatText) : Bool :=
  match digits? 10 0 (x.whole ++ x.fraction) with
  | none => false
  | some 0 => true
  | some n =>
      let exponent := x.exponent - x.fraction.length
      if exponent > 400 then false
      else if exponent ≥ 0 then (Binary64.ofQuotient? (n * Nat.pow 10 exponent.toNat) 1).isSome
      else if exponent < -(400 + (x.whole.length + x.fraction.length : Int)) then true
      else (Binary64.ofQuotient? n (Nat.pow 10 (-exponent).toNat)).isSome

/-! ## 3. Dates and times -/

/-- A number of the given count of digits at the start of a text. -/
def fixed? (count : Nat) (text : List Char) : Option (Nat × List Char) :=
  let head := text.take count
  if head.length = count then (digits? 10 0 head).map fun n => (n, text.drop count) else none

/-- A text without the character that it has to start with. -/
def after? (c : Char) : List Char → Option (List Char)
  | [] => none
  | first :: rest => if first = c then some rest else none

def daysInMonth (year month : Nat) : Nat :=
  let isLeap := year % 4 = 0 && (year % 100 ≠ 0 || year % 400 = 0)
  match month with
  | 2 => if isLeap then 29 else 28
  | 4 | 6 | 9 | 11 => 30
  | _ => 31

def afterDate? (text : List Char) : Option (List Char) := do
  let (year, text) ← fixed? 4 text
  let (month, text) ← fixed? 2 (← after? '-' text)
  let (day, text) ← fixed? 2 (← after? '-' text)
  if 1 ≤ month && month ≤ 12 && 1 ≤ day && day ≤ daysInMonth year month then some text else none

/-- What follows the fraction of a second, if there is one. -/
def afterFraction? : List Char → Option (List Char)
  | '.' :: rest =>
      if (rest.takeWhile (fun c => (digit? 10 c).isSome)).isEmpty then none
      else some (rest.dropWhile fun c => (digit? 10 c).isSome)
  | text => some text

/-- What follows the seconds of a time, if it has any.  A leap second is one. -/
def afterSeconds? : List Char → Option (List Char)
  | ':' :: rest => do
      let (second, text) ← fixed? 2 rest
      if second ≤ 60 then afterFraction? text else none
  | text => some text

def afterMinutes? (text : List Char) : Option (List Char) := do
  let (hour, text) ← fixed? 2 text
  let (minute, text) ← fixed? 2 (← after? ':' text)
  if hour ≤ 23 && minute ≤ 59 then some text else none

def afterTime? (text : List Char) : Option (List Char) :=
  (afterMinutes? text).bind afterSeconds?

/-- Whether a text is the offset of a time zone, or nothing. -/
def isOffset : List Char → Bool
  | [] => true
  | ['Z'] => true
  | ['z'] => true
  | '+' :: rest => afterMinutes? rest == some []
  | '-' :: rest => afterMinutes? rest == some []
  | _ => false

def isDateTimeSeparator (c : Char) : Bool :=
  c == 'T' || c == 't' || c == ' '

/-- Whether a text is a date, a time, or both with an offset or without. -/
def isDateTime (text : List Char) : Bool :=
  match afterDate? text with
  | some [] => true
  | some (c :: rest) => isDateTimeSeparator c && (afterTime? rest).any isOffset
  | none => afterTime? text == some []

/-! ## 4. Any scalar but a string -/

def scalar? (text : List Char) : Option Scalar :=
  let unsigned := (unsign text).2
  if text = "true".toList then some (.boolean true)
  else if text = "false".toList then some (.boolean false)
  else if isSpecialFloat unsigned then some (.float unsigned)
  else
    match integer? text with
    | some value => some (.integer value)
    | none =>
        if (float? unsigned).isSome then some (.float unsigned)
        else if isDateTime text then some .dateTime
        else if isBasePrefix text || looksLikeInteger text then some .unreadable
        else none

/-- Whether a scalar can be read: what is written as a number is one, and in range. -/
def Scalar.isReadable : Scalar → Bool
  | integer value => -(Nat.pow 2 127 : Int) ≤ value && value < (Nat.pow 2 128 : Int)
  | float text => isSpecialFloat text || (float? text).any (·.inRange)
  | unreadable => false
  | _ => true

mutual

def Node.isReadable : Node → Bool
  | .scalar value => value.isReadable
  | .array _ items => itemsReadable items
  | .table _ entries => entriesReadable entries

def itemsReadable : List Node → Bool
  | [] => true
  | item :: items => item.isReadable && itemsReadable items

def entriesReadable : List (List Char × Node) → Bool
  | [] => true
  | (_, node) :: entries => node.isReadable && entriesReadable entries

end

end ModuleSurface.Toml
