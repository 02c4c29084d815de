import Brewery.Decimal.Binary64
import Brewery.Text.Digit
import Brewery.Toml.Value

/-!
The values of a settings file that are not made of others: strings in four kinds of quotes,
numbers, truth values, dates and times. Two editions of the format differ in small ways.
-/

namespace Brewery.Toml

inductive Edition where
  | v10
  | v11
  deriving DecidableEq

def isSpace (c : Char) : Bool := c = ' ' || c = '\t'

/-- Characters that may stand for themselves: no control character but the tab. -/
def isPlain (c : Char) : Bool := c = '\t' || (32 ≤ c.toNat && c.toNat ≠ 127)

def skipSpace (text : Text) : Text := text.dropWhile isSpace

/-- The text after the end of a line. -/
def afterNewline? : Text → Option Text
  | '\n' :: rest => some rest
  | '\r' :: '\n' :: rest => some rest
  | _ => none

namespace Scalar

/-- The character that the text after a backslash stands for. -/
def escape? (edition : Edition) : Text → Option (Char × Text)
  | 'b' :: rest => some (Char.ofNat 8, rest)
  | 't' :: rest => some ('\t', rest)
  | 'n' :: rest => some ('\n', rest)
  | 'f' :: rest => some (Char.ofNat 12, rest)
  | 'r' :: rest => some ('\r', rest)
  | '"' :: rest => some ('"', rest)
  | '\\' :: rest => some ('\\', rest)
  | 'u' :: rest => Text.codePoint? 4 rest
  | 'U' :: rest => Text.codePoint? 8 rest
  | 'e' :: rest => if edition = .v11 then some (Char.ofNat 27, rest) else none
  | 'x' :: rest => if edition = .v11 then Text.codePoint? 2 rest else none
  | _ => none

/-- The rest of a string in double quotes. -/
def basicWithin (edition : Edition) : Nat → Text → Option (Text × Text)
  | 0, _ => none
  | _ + 1, [] => none
  | _ + 1, '"' :: rest => some ([], rest)
  | bound + 1, '\\' :: rest => do
      let (meant, rest) ← escape? edition rest
      let (more, rest) ← basicWithin edition bound rest
      some (meant :: more, rest)
  | bound + 1, c :: rest =>
      if isPlain c then do
        let (more, rest) ← basicWithin edition bound rest
        some (c :: more, rest)
      else none

def basic? (edition : Edition) (text : Text) : Option (Text × Text) :=
  basicWithin edition (text.length + 1) text

/-- The rest of a string in single quotes. -/
def literal? (text : Text) : Option (Text × Text) :=
  let inside := text.takeWhile (· ≠ '\'')
  match text.dropWhile (· ≠ '\'') with
  | '\'' :: rest => if inside.all isPlain then some (inside, rest) else none
  | _ => none

/-- The text after a backslash at the end of a line: white space is skipped up to the next
character that is none. -/
def afterLineJoin? (text : Text) : Option Text :=
  let rest := text.dropWhile isSpace
  (afterNewline? rest).map fun rest =>
    rest.dropWhile fun c => isSpace c || c = '\n' || c = '\r'

/-- The rest of a string in three quotes. Of more than three quotes at its end, at most two
belong to it. Only double quotes know the backslash. -/
def longWithin (edition : Edition) (quote : Char) : Nat → Text → Option (Text × Text)
  | 0, _ => none
  | _ + 1, [] => none
  | bound + 1, c :: rest =>
      if c = quote then
        let run := ((c :: rest).takeWhile (· = quote)).length
        if 3 ≤ run then
          let kept := min (run - 3) 2
          some (List.replicate kept quote, (c :: rest).drop (kept + 3))
        else do
          let (more, rest) ← longWithin edition quote bound ((c :: rest).drop run)
          some (List.replicate run quote ++ more, rest)
      else if c = '\\' && quote = '"' then
        match afterLineJoin? rest with
        | some rest => longWithin edition quote bound rest
        | none => do
            let (meant, rest) ← escape? edition rest
            let (more, rest) ← longWithin edition quote bound rest
            some (meant :: more, rest)
      else match afterNewline? (c :: rest) with
        | some after => do
            let (more, after) ← longWithin edition quote bound after
            let kept := if edition = .v11 && c = '\r' then ['\r', '\n'] else ['\n']
            some (kept ++ more, after)
        | none =>
            if isPlain c then do
              let (more, rest) ← longWithin edition quote bound rest
              some (c :: more, rest)
            else none

/-- A newline right after the opening quotes does not count. -/
def long? (edition : Edition) (quote : Char) (text : Text) : Option (Text × Text) :=
  longWithin edition quote (text.length + 1) ((afterNewline? text).getD text)

def string? (edition : Edition) : Text → Option (Text × Text)
  | '"' :: '"' :: '"' :: rest => long? edition '"' rest
  | '\'' :: '\'' :: '\'' :: rest => long? edition '\'' rest
  | '"' :: rest => basic? edition rest
  | '\'' :: rest => literal? rest
  | _ => none

/-- Digits without the underscores that may stand between them. -/
def digits? (isDigit : Char → Bool) (text : Text) : Option Text :=
  let groups := Text.splitAt '_' text
  if groups.all fun group => !group.isEmpty && group.all isDigit then some groups.flatten
  else none

/-- An integer within the range of an edition. -/
def ranged? (edition : Edition) (number : Int) : Option Value :=
  let inRange := match edition with
    | .v10 => -Int.pow 2 63 ≤ number && number < Int.pow 2 63
    | .v11 => -Int.pow 2 127 ≤ number && number < Int.pow 2 128
  if inRange then some (.integer number) else none

/-- An integer in a base other than ten, after its mark. -/
def based? (edition : Edition) (base : Nat) (isDigit : Char → Bool) (text : Text) : Option Value :=
  (digits? isDigit text).bind fun digits => ranged? edition (Text.number base digits)

/-- The digits before a point or an exponent: no zero in front of another digit. -/
def whole? (text : Text) : Option Text :=
  (digits? Char.isDigit text).bind fun digits =>
    if digits.head? = some '0' && digits.length ≠ 1 then none else some digits

def exponent? : Text → Option Int
  | '-' :: rest => (digits? Char.isDigit rest).map fun digits => -(Text.number 10 digits : Int)
  | '+' :: rest => (digits? Char.isDigit rest).map fun digits => (Text.number 10 digits : Int)
  | rest => (digits? Char.isDigit rest).map fun digits => (Text.number 10 digits : Int)

def isDigitOrMark (c : Char) : Bool := c.isDigit || c = '_'

/-- A number too large to be finite is refused; the older edition lets a negative one be
infinite. -/
def finite? (edition : Edition) (negative : Bool) (whole fraction : Text) (exponent : Int)
    (spelling : Text) : Option Value :=
  match Binary64.ofDecimal negative (Text.number 10 (whole ++ fraction))
      (exponent - fraction.length) with
  | some _ => some (.float spelling)
  | none => if edition = .v10 && negative then some (.float spelling) else none

/-- A number in base ten, after its sign. -/
def decimal? (edition : Edition) (negative : Bool) (text spelling : Text) : Option Value := do
  let whole ← whole? (text.takeWhile isDigitOrMark)
  match text.dropWhile isDigitOrMark with
  | [] =>
      let size : Int := Text.number 10 whole
      ranged? edition (if negative then -size else size)
  | '.' :: rest =>
      let fraction ← digits? Char.isDigit (rest.takeWhile isDigitOrMark)
      match rest.dropWhile isDigitOrMark with
      | [] => finite? edition negative whole fraction 0 spelling
      | mark :: rest =>
          if mark = 'e' || mark = 'E' then
            finite? edition negative whole fraction (← exponent? rest) spelling
          else none
  | mark :: rest =>
      if mark = 'e' || mark = 'E' then
        finite? edition negative whole [] (← exponent? rest) spelling
      else none

def number? (edition : Edition) (text : Text) : Option Value :=
  let unsigned (negative : Bool) (body : Text) : Option Value :=
    if body = "inf".toList || body = "nan".toList then some (.float text)
    else decimal? edition negative body text
  match text with
  | '0' :: 'x' :: rest => based? edition 16 Text.isHexDigit rest
  | '0' :: 'o' :: rest => based? edition 8 (fun c => '0' ≤ c && c ≤ '7') rest
  | '0' :: 'b' :: rest => based? edition 2 (fun c => c = '0' || c = '1') rest
  | '-' :: rest => unsigned true rest
  | '+' :: rest => unsigned false rest
  | _ => unsigned false text

def daysIn (year month : Nat) : Nat :=
  if month = 2 then
    if year % 4 = 0 && (year % 100 ≠ 0 || year % 400 = 0) then 29 else 28
  else if month = 4 || month = 6 || month = 9 || month = 11 then 30
  else 31

/-- A number of exactly so many digits, and the text after it. -/
def fixed? (count : Nat) (text : Text) : Option (Nat × Text) :=
  let digits := text.take count
  if digits.length = count && digits.all Char.isDigit then
    some (Text.number 10 digits, text.drop count)
  else none

/-- The text after a date. -/
def afterDate? (text : Text) : Option Text := do
  let (year, rest) ← fixed? 4 text
  let (month, rest) ← fixed? 2 (← Text.dropPrefix? ['-'] rest)
  let (day, rest) ← fixed? 2 (← Text.dropPrefix? ['-'] rest)
  if 1 ≤ month && month ≤ 12 && 1 ≤ day && day ≤ daysIn year month then some rest else none

/-- The text after the seconds and their fraction; the later edition may leave both out. -/
def afterSeconds? (edition : Edition) : Text → Option Text
  | ':' :: rest => do
      let (second, rest) ← fixed? 2 rest
      if 60 < second then none
      else match rest with
        | '.' :: rest =>
            if (rest.takeWhile Char.isDigit).isEmpty then none
            else some (rest.dropWhile Char.isDigit)
        | rest => some rest
  | rest => if edition = .v11 then some rest else none

/-- The text after a time of day. -/
def afterTime? (edition : Edition) (text : Text) : Option Text := do
  let (hour, rest) ← fixed? 2 text
  let (minute, rest) ← fixed? 2 (← Text.dropPrefix? [':'] rest)
  if hour ≤ 23 && minute ≤ 59 then afterSeconds? edition rest else none

def isOffset : Text → Bool
  | [] => true
  | ['Z'] => true
  | ['z'] => true
  | sign :: rest =>
      (sign = '+' || sign = '-') &&
        (match fixed? 2 rest with
        | some (hour, ':' :: rest) => hour ≤ 23 &&
            (match fixed? 2 rest with
            | some (minute, []) => minute ≤ 59
            | _ => false)
        | _ => false)

def isDate (edition : Edition) (text : Text) : Bool :=
  match afterDate? text with
  | some [] => true
  | some (mark :: rest) =>
      (mark = 'T' || mark = 't' || mark = ' ') && (afterTime? edition rest).any isOffset
  | none => (afterTime? edition text).any List.isEmpty

/-- Characters of numbers, dates and words. -/
def isWordPart (c : Char) : Bool :=
  c.isAlphanum || c = '_' || c = '-' || c = '+' || c = '.' || c = ':'

/-- A word, with the time of day that follows a date after one space. -/
def word (text : Text) : Text :=
  let first := text.takeWhile isWordPart
  match text.dropWhile isWordPart with
  | ' ' :: rest =>
      let second := rest.takeWhile isWordPart
      if afterDate? first = some [] && (second.drop 2).head? = some ':' then
        first ++ ' ' :: second
      else first
  | _ => first

/-- A value that stands without quotes. -/
def bare? (edition : Edition) (text : Text) : Option (Value × Text) :=
  let word := word text
  let rest := text.drop word.length
  if word = "true".toList then some (.bool true, rest)
  else if word = "false".toList then some (.bool false, rest)
  else if isDate edition word then some (.date word, rest)
  else (number? edition word).map fun value => (value, rest)

end Scalar
end Brewery.Toml
