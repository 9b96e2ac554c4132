import Mathlib.Data.List.Lex
import Mathlib.Data.Char
import Mathlib.Data.List.Sort
import TradeRecommender.Research.Records

/-!
# Running the ingests on ASCII bodies

`asciiPlatform` answers the library calls on ASCII texts: texts, letters and bytes by computation,
and JSON, dates, numbers and digests from tables.  A call outside its table raises what the
library raises on a text it cannot read.
-/

namespace TradeRecommender.Research

open Py Civil

/-- The bytes of an ASCII text. -/
def asciiBody (text : String) : Body := text.toList.map fun c => UInt8.ofNat c.toNat

/-- The text of ASCII bytes. -/
def asciiText (body : Body) : String := String.ofList (body.map fun b => Char.ofNat b.toNat)

/-- `text.strip()` of an ASCII text. -/
def asciiStrip (text : String) : String :=
  String.ofList ((text.toList.dropWhile (·.isWhitespace)).reverse.dropWhile
    (·.isWhitespace)).reverse

/-- `str(value)` of a value that is no container. -/
def scalarText : Val → String
  | .none => "None"
  | .bool b => if b then "True" else "False"
  | .int n => toString n
  | .float repr => repr
  | .str text => text
  | _ => ""

/-- A dict of texts as JSON, keys sorted. -/
def dictText (payload : List (String × Option String)) : String :=
  let entries := payload.insertionSort fun a b => a.1.toList ≤ b.1.toList
  "\x7b" ++ ", ".intercalate (entries.map fun entry => s!"\"{entry.1}\": " ++
    match entry.2 with
    | some text => s!"\"{text}\""
    | none => "null") ++ "\x7d"

/-- What the table holds, or the exception of a text outside it. -/
def lookupOr {κ α : Type} [BEq κ] (table : List (κ × α)) (key : κ) (cls : ExcClass) :
    Except Exc α :=
  match table.lookup key with
  | some value => .ok value
  | none => raise cls

/-- The tables of a run. -/
structure Tables where
  json : List (String × Val) := []
  dates : List ((String × String) × Naive) := []
  numbers : List (String × Decimal × String) := []
  stamps : List (Instant × String) := []
  digests : List (String × String) := []
  matched : List ((String × String) × List (List String)) := []

/-- The library calls of a run on ASCII bodies. -/
def asciiPlatform (tables : Tables) : Platform where
  decode body := .ok (asciiText body)
  loads text := lookupOr tables.json text .jsonDecodeError
  fromstring _ := raise (.other "ParseError")
  htmlData text := .ok [text]
  urlsplit _ := raise .valueError
  parseQsl _ := .ok []
  urlencode _ := .ok ""
  urlunsplit scheme netloc path _ := scheme ++ "://" ++ netloc ++ path
  urljoin base url := .ok (base ++ url)
  strip := asciiStrip
  lstrip text chars := String.ofList (text.toList.dropWhile (· ∈ chars.toList))
  lower text := String.ofList (text.toList.map Char.toLower)
  upper text := String.ofList (text.toList.map Char.toUpper)
  words text := (text.toList.splitOnP (·.isWhitespace)).filterMap fun word =>
    if word.isEmpty then none else some (String.ofList word)
  splitlines text := (text.toList.splitOn '\n').map String.ofList
  replace text old new :=
    if old.length = 1 then
      String.ofList (text.toList.flatMap fun c => if old.toList = [c] then new.toList else [c])
    else text
  split text _ := [text]
  contains needle text := text.toList.tails.any needle.toList.isPrefixOf
  str := scalarText
  int text := lookupOr [("2026", 2026)] text .valueError
  floatLt _ _ := false
  decimal text := (lookupOr tables.numbers text .invalidOperation).map Prod.fst
  normalizedText value :=
    match tables.numbers.find? (·.2.1 = value) with
    | some entry => .ok entry.2.2
    | none => raise .invalidOperation
  percentChange _ _ := raise .invalidOperation
  strptime text pattern := lookupOr tables.dates (text, pattern) .valueError
  fromisoformat _ := raise .valueError
  parsedateToDatetime _ := raise .valueError
  isoformat instant := (tables.stamps.lookup instant).getD ""
  torontoOffset _ := -4 * hour
  csvDictRows _ := raise (.other "csv.Error")
  csvRows _ := raise (.other "csv.Error")
  zipInfolist _ := raise .badZipFile
  zipRead _ _ := raise .badZipFile
  finditer pattern text := (tables.matched.lookup (pattern, text)).getD []
  search _ _ := none
  digest text := .ok ((tables.digests.lookup text).getD text)
  bodySha256 body := (tables.digests.lookup (asciiText body)).getD (asciiText body)
  dumps := dictText
  admits _ := .ok ()

end TradeRecommender.Research
