import ModuleSurface.Json.Fault

/-!
# Number — numbers in documents: their grammar, and what a number amounts to

A number without fraction and exponent is an integer as long as it fits 64 bits.  Any other number
becomes a double: its digits are gathered while they fit an unsigned 64-bit word, further ones
only move the decimal point, and the word is then scaled by a power of ten in double arithmetic.
-/

namespace ModuleSurface.Json

/-! ## 1. The text of a number -/

def digitValue? : Piece → Option Nat
  | .char c => if '0' ≤ c ∧ c ≤ '9' then some (c.toNat - 48) else none
  | .stray _ => none

def takeDigits : List Piece → List Nat × List Piece
  | [] => ([], [])
  | piece :: rest =>
      match digitValue? piece with
      | none => ([], piece :: rest)
      | some digit => (digit :: (takeDigits rest).1, (takeDigits rest).2)

/-- The parts of a number behind its sign; the exponent is its sign and its digits. -/
structure NumberText where
  whole : List Nat
  fraction : List Nat
  exponent : Option (Bool × List Nat)
  deriving DecidableEq, Repr

/-- The fault of a number that the end of the text cuts short.  A number that nobody wants is then
an invalid one. -/
def numberEnded (wanted : Bool) : Fault :=
  if wanted then .ended .value else .here .invalidNumber []

def readWhole (wanted : Bool) : Reader (List Nat)
  | [] => .error (numberEnded wanted)
  | piece :: rest =>
      match digitValue? piece with
      | none => .error (.next .invalidNumber (piece :: rest))
      | some 0 =>
          if (takeDigits rest).1.isEmpty then .ok ([0], rest)
          else .error (.next .invalidNumber rest)
      | some digit => .ok (digit :: (takeDigits rest).1, (takeDigits rest).2)

def readFraction (wanted : Bool) : Reader (List Nat)
  | .char '.' :: rest =>
      match takeDigits rest with
      | ([], []) => .error (numberEnded wanted)
      | ([], other) => .error (.next .invalidNumber other)
      | (digits, after) => .ok (digits, after)
  | text => .ok ([], text)

def readExponentDigits (wanted : Bool) (negative : Bool) : Reader (Option (Bool × List Nat))
  | [] => .error (numberEnded wanted)
  | text =>
      match takeDigits text with
      | ([], _) => .error (.next .invalidNumber text)
      | (digits, after) => .ok (some (negative, digits), after)

def readExponent (wanted : Bool) : Reader (Option (Bool × List Nat))
  | .char c :: rest =>
      if c = 'e' || c = 'E' then
        match rest with
        | .char '+' :: digits => readExponentDigits wanted false digits
        | .char '-' :: digits => readExponentDigits wanted true digits
        | digits => readExponentDigits wanted false digits
      else .ok (none, .char c :: rest)
  | text => .ok (none, text)

def readNumberText (wanted : Bool) : Reader NumberText := fun text => do
  let (whole, text) ← readWhole wanted text
  let (fraction, text) ← readFraction wanted text
  let (exponent, text) ← readExponent wanted text
  return (⟨whole, fraction, exponent⟩, text)

/-! ## 2. The value of a number -/

/-- Gathers digits behind a number as long as it does not exceed a limit; the others are left. -/
def gather (limit : Nat) (number : Nat) : List Nat → Nat × List Nat
  | [] => (number, [])
  | digit :: digits =>
      if number * 10 + digit > limit then (number, digit :: digits)
      else gather limit (number * 10 + digit) digits

/-- The greatest power of ten whose exponent is scaled by at once. -/
def scaleStep : Nat := 308

/-- The double nearest to a power of ten. -/
def powerOfTen (n : Nat) : Binary64 :=
  (Binary64.ofQuotient? (Nat.pow 10 n) 1).getD .zero

/-- A double divided by a power of ten, in steps. -/
def scaleDown (x : Binary64) (n : Nat) : Binary64 :=
  if n ≤ scaleStep then (x.div? (powerOfTen n)).getD .zero
  else if x.mantissa = 0 then x
  else scaleDown ((x.div? (powerOfTen scaleStep)).getD .zero) (n - scaleStep)
termination_by n
decreasing_by simp only [scaleStep] at *; omega

/-- A double times a power of ten; none if it is too large. -/
def scale? (x : Binary64) (exponent : Int) : Option Binary64 :=
  if exponent < 0 then some (scaleDown x exponent.natAbs)
  else if exponent.natAbs ≤ scaleStep then x.mul? (powerOfTen exponent.natAbs)
  else if x.mantissa = 0 then some x
  else none

/-- What the digits of an exponent say: its value, or that it is too large to be kept, with the
digits behind the one that made it so. -/
inductive ExponentValue
  | exactly (value : Int)
  | tooLarge (negative : Bool) (unread : List Nat)
  deriving DecidableEq, Repr

def exponentValue : Option (Bool × List Nat) → ExponentValue
  | none => .exactly 0
  | some (negative, digits) =>
      match gather (Nat.pow 2 31 - 1) 0 digits with
      | (value, []) => .exactly (if negative then -(value : Int) else value)
      | (_, _ :: unread) => .tooLarge negative unread

/-- An integer in sixty-four bits: unsigned, or negative and signed. -/
def integerValue? (negative : Bool) (n : Nat) : Option Int :=
  if !negative then some n
  else if n ≠ 0 && n ≤ Nat.pow 2 63 then some (-(n : Int))
  else none

/-- What a number amounts to; on failure it is too large, and some digits have not been read. -/
def NumberText.value (n : NumberText) (negative : Bool) : Except (List Nat) Found :=
  let (word, beyond) := gather (Nat.pow 2 64 - 1) 0 n.whole
  let float (word : Nat) (exponent : Int) : Except (List Nat) Found :=
    match (Binary64.ofQuotient? word 1).bind (scale? · exponent) with
    | some x => .ok (.float negative x)
    | none => .error []
  if n.fraction.isEmpty && n.exponent.isNone && beyond.isEmpty then
    match integerValue? negative word with
    | some value => .ok (.integer value)
    | none => float word 0
  else
    let (word, ignored) := gather (Nat.pow 2 64 - 1) word n.fraction
    let point : Int := (beyond.length + ignored.length : Int) - n.fraction.length
    match exponentValue n.exponent with
    | .exactly exponent => float word (point + exponent)
    | .tooLarge false unread => if word = 0 then float 0 0 else .error unread
    | .tooLarge true _ => float 0 0

def digitPieces (digits : List Nat) : List Piece :=
  digits.map fun digit => .char (Nat.digitChar digit)

def readNumber (negative : Bool) : Reader Found := fun text => do
  let (number, rest) ← readNumberText true text
  match number.value negative with
  | .ok found => return (found, rest)
  | .error unread => throw (.here .numberOutOfRange (digitPieces unread ++ rest))

/-! ## 3. Reading a number takes at least one piece -/

theorem takeDigits_length (text : List Piece) : (takeDigits text).2.length ≤ text.length := by
  induction text with
  | nil => simp [takeDigits]
  | cons piece rest ih =>
    rw [takeDigits]
    split
    · simp
    · simp only [List.length_cons]
      omega

theorem readWhole_length {wanted : Bool} {text rest : List Piece} {digits : List Nat}
    (h : readWhole wanted text = .ok (digits, rest)) : rest.length < text.length := by
  cases text with
  | nil => simp [readWhole] at h
  | cons piece tail =>
    have htail := takeDigits_length tail
    simp only [readWhole] at h
    split at h
    · simp at h
    · split at h
      · simp only [Except.ok.injEq, Prod.mk.injEq] at h
        rw [← h.2]
        simp
      · simp at h
    · simp only [Except.ok.injEq, Prod.mk.injEq] at h
      rw [← h.2]
      simp only [List.length_cons]
      omega

theorem readFraction_length {wanted : Bool} {text rest : List Piece} {digits : List Nat}
    (h : readFraction wanted text = .ok (digits, rest)) : rest.length ≤ text.length := by
  unfold readFraction at h
  split at h
  · rename_i tail
    have htail := takeDigits_length tail
    split at h
    · simp at h
    · simp at h
    · rename_i hdigits
      simp only [Except.ok.injEq, Prod.mk.injEq] at h
      rw [hdigits, h.2] at htail
      simp only [List.length_cons]
      exact Nat.le_succ_of_le htail
  · simp only [Except.ok.injEq, Prod.mk.injEq] at h
    exact Nat.le_of_eq (congrArg _ h.2.symm)

theorem readExponentDigits_length {wanted negative : Bool} {text rest : List Piece}
    {exponent : Option (Bool × List Nat)}
    (h : readExponentDigits wanted negative text = .ok (exponent, rest)) :
    rest.length ≤ text.length := by
  unfold readExponentDigits at h
  have htail := takeDigits_length text
  split at h
  · simp at h
  · split at h
    · simp at h
    · rename_i hdigits
      simp only [Except.ok.injEq, Prod.mk.injEq] at h
      rw [hdigits, h.2] at htail
      exact htail

theorem readExponent_length {wanted : Bool} {text rest : List Piece}
    {exponent : Option (Bool × List Nat)}
    (h : readExponent wanted text = .ok (exponent, rest)) : rest.length ≤ text.length := by
  unfold readExponent at h
  split at h
  · split at h
    · split at h
      all_goals
        have hdigits := readExponentDigits_length h
        simp only [List.length_cons]
        omega
    · simp only [Except.ok.injEq, Prod.mk.injEq] at h
      exact Nat.le_of_eq (congrArg _ h.2.symm)
  · simp only [Except.ok.injEq, Prod.mk.injEq] at h
    exact Nat.le_of_eq (congrArg _ h.2.symm)

theorem readNumberText_length {wanted : Bool} {text rest : List Piece} {number : NumberText}
    (h : readNumberText wanted text = .ok (number, rest)) : rest.length < text.length := by
  simp only [readNumberText, bind, Except.bind, pure, Except.pure] at h
  split at h
  · simp at h
  · rename_i whole hwhole
    split at h
    · simp at h
    · rename_i fraction hfraction
      split at h
      · simp at h
      · rename_i exponent hexponent
        simp only [Except.ok.injEq, Prod.mk.injEq] at h
        have h1 := readWhole_length hwhole
        have h2 := readFraction_length hfraction
        have h3 := readExponent_length hexponent
        rw [← h.2]
        omega

end ModuleSurface.Json
