import Mathlib.Data.List.Basic
import TradeRecommender.Lib.Civil

/-!
# Library calls and text helpers of the research parsers

The parsers call the standard library, defusedxml and the zone database on bytes they have not
looked at.  Each call is a field of `Stdlib` that returns a value or raises; no parser result
depends on more than what the fields return.  The helpers the parsers share follow.
-/

namespace TradeRecommender.Research

open Py Civil

/-- A response body. -/
abbrev Body := List UInt8

/-- An XML element with its text and children. -/
inductive Element
  | mk (tag : String) (text : Option String) (attrib : List (String × String))
      (children : List Element)

namespace Element

def tag : Element → String
  | .mk tag _ _ _ => tag

def text : Element → Option String
  | .mk _ text _ _ => text

def attrib : Element → List (String × String)
  | .mk _ _ attrib _ => attrib

def children : Element → List Element
  | .mk _ _ _ children => children

mutual

/-- The element and its descendants in document order. -/
def iter : Element → List Element
  | .mk tag text attrib children => .mk tag text attrib children :: iterAll children

def iterAll : List Element → List Element
  | [] => []
  | node :: nodes => iter node ++ iterAll nodes

end

end Element

/-- The parts of a split URL the parsers read. -/
structure SplitResult where
  scheme : String
  netloc : String
  path : String
  query : String
  hostname : Option String

/-- A parsed datetime: its wall reading and its offset from UTC, absent when it names no zone. -/
structure Parsed where
  naive : Naive
  offset : Option ℤ

/-- A member of a ZIP archive. -/
structure ZipEntry where
  filename : String
  fileSize : ℕ

/-- A decimal number. -/
inductive Decimal
  | finite (negative : Bool) (coefficient : ℕ) (exponent : ℤ)
  | infinity (negative : Bool)
  | nan (negative signaling : Bool)
  deriving DecidableEq

/-- `bool(value)`. -/
def Decimal.truthy : Decimal → Bool
  | .finite _ coefficient _ => coefficient ≠ 0
  | _ => true

/-- The library calls the parsers make. -/
structure Stdlib where
  /-- `body.decode("utf-8-sig")` -/
  decode : Body → Except Exc String
  /-- `json.loads` -/
  loads : String → Except Exc Val
  /-- `defusedxml.ElementTree.fromstring` -/
  fromstring : Body → Except Exc Element
  /-- the texts `HTMLParser.feed` hands to `handle_data` -/
  htmlData : String → Except Exc (List String)
  urlsplit : String → Except Exc SplitResult
  /-- `parse_qsl(query, keep_blank_values=True)` -/
  parseQsl : String → Except Exc (List (String × String))
  urlencode : List (String × String) → Except Exc String
  /-- `urlunsplit` of scheme, location, path and query, with no fragment -/
  urlunsplit : String → String → String → String → String
  urljoin : String → String → Except Exc String
  strip : String → String
  /-- `text.lstrip(chars)` -/
  lstrip : String → String → String
  lower : String → String
  upper : String → String
  /-- `text.split()` -/
  words : String → List String
  splitlines : String → List String
  /-- `text.replace(old, new)` -/
  replace : String → String → String → String
  /-- `text.split(separator)` -/
  split : String → String → List String
  /-- `needle in text` -/
  contains : String → String → Bool
  /-- `str(value)` -/
  str : Val → String
  /-- `int(text)` -/
  int : String → Except Exc ℤ
  /-- `float < int` for the float with that text -/
  floatLt : String → ℤ → Bool
  decimal : String → Except Exc Decimal
  /-- `format(value.normalize(), "f")` -/
  normalizedText : Decimal → Except Exc String
  /-- `(value / prior - 1) * Decimal("100")` -/
  percentChange : Decimal → Decimal → Except Exc Decimal
  /-- `datetime.strptime(text, pattern)` -/
  strptime : String → String → Except Exc Naive
  fromisoformat : String → Except Exc Parsed
  parsedateToDatetime : Val → Except Exc Parsed
  /-- `isoformat()` of an instant in UTC -/
  isoformat : Instant → String
  /-- the offset of `America/Toronto` at a wall reading -/
  torontoOffset : Naive → ℤ
  /-- `csv.DictReader`, each row a dict of texts and missing values -/
  csvDictRows : String → Except Exc (List Val)
  csvRows : String → Except Exc (List (List String))
  /-- `zipfile.ZipFile(io.BytesIO(body)).infolist()` -/
  zipInfolist : Body → Except Exc (List ZipEntry)
  /-- `archive.read(entry)` -/
  zipRead : Body → ZipEntry → Except Exc Body
  /-- the groups of each match of `re.finditer(pattern, text)`, under the flags of the call -/
  finditer : String → String → List (List String)
  /-- the groups of `re.search(pattern, text)` -/
  search : String → String → Option (List String)

/-- `raise ParseRejected(text)`. -/
def reject {α : Type} (text : String) : Except Exc α := raise .parseRejected text

/-- `text[:n]`. -/
def slice (n : ℕ) (text : String) : String := String.ofList (text.toList.take n)

/-- `text.rsplit("}", 1)[-1]`. -/
def localName (tag : String) : String :=
  String.ofList (tag.toList.reverse.takeWhile (· ≠ '}')).reverse

section
variable (lib : Stdlib)

/-- `value.strip()` on a value that may not be a text. -/
def stripVal : Val → Except Exc String
  | .str text => .ok (lib.strip text)
  | _ => raise .attributeError "object has no attribute 'strip'"

/-- `datetime.strptime(value, pattern)` on a value that may not be a text. -/
def strptimeVal (value : Val) (pattern : String) : Except Exc Naive :=
  match value with
  | .str text => lib.strptime text pattern
  | _ => raise .typeError "strptime() argument 1 must be str"

/-- `replace(hour, minute, tzinfo=Toronto).astimezone(UTC)`. -/
def torontoToUtc (naive : Naive) : Except Exc Instant :=
  toUtc naive.wall (lib.torontoOffset naive)

/-- The text of an HTML fragment, runs of white space collapsed. -/
def plainText (value : String) : Except Exc String := do
  let parts ← lib.htmlData value
  return " ".intercalate (lib.words (" ".intercalate parts))

/-- The first non-empty text of a child with one of the names. -/
def childText (node : Element) (names : List String) : String :=
  let texts := (node.children.filter fun child => localName child.tag ∈ names).filterMap
    fun child => child.text
  (texts.find? (· ≠ "")).getD ""

/-- The first non-empty text of the node or a descendant with one of the names. -/
def descendantText (node : Element) (names : List String) : String :=
  let texts := (node.iter.filter fun child => localName child.tag ∈ names).filterMap
    fun child => child.text
  ((texts.find? (· ≠ "")).map lib.strip).getD ""

/-- The address of the first `link` child. -/
def link (node : Element) : String :=
  match node.children.find? (localName ·.tag = "link") with
  | some child =>
    let href := (child.attrib.lookup "href").getD ""
    if href ≠ "" then href else child.text.getD ""
  | none => ""

/-- `_parse_datetime`. -/
def parseDatetime (value : Val) : Except Exc (Option Instant) :=
  if !value.truthy then .ok none
  else do
    let parsed ← tryExcept ((lib.parsedateToDatetime value).map some) [.typeError, .valueError]
      fun _ => do
        let text ← match value with
          | .str text => pure (lib.replace text "Z" "+00:00")
          | _ => raise .attributeError "object has no attribute 'replace'"
        tryExcept ((lib.fromisoformat text).map some) [.valueError] fun _ => .ok none
    match parsed with
    | none => return none
    | some parsed =>
      let instant ← toUtc parsed.naive.wall (parsed.offset.getD 0)
      return some instant

/-- The patterns `_parse_date` tries, in order. -/
def datePatterns : List String := ["%Y-%m-%d", "%d %b %Y", "%Y-%m", "%Y %b"]

/-- The first pattern that fits, with the first of the month for `%Y-%m`. -/
def matchPattern (value : String) : List String → Except Exc (Option Date)
  | [] => .ok none
  | pattern :: rest =>
    match lib.strptime (lib.strip value) pattern with
    | .ok parsed =>
      .ok (some (if pattern = "%Y-%m" then { parsed.date with day := 1 } else parsed.date))
    | .error e => if e.caughtBy [.valueError] then matchPattern value rest else .error e

/-- `datetime(int(value[:4]), (int(value[-1]) - 1) * 3 + 1, 1).date()`. -/
def quarterStart (value : String) : Except Exc Date := do
  let year ← lib.int (slice 4 value)
  let quarter ← lib.int (String.ofList (value.toList.drop 6))
  Date.make year ((quarter - 1) * 3 + 1) 1

/-- A year and a quarter, as in `2026 Q3` or `2026-Q3`. -/
def isQuarter (value : String) : Bool :=
  let chars := value.toList
  chars.length = 7 && (chars.drop 4).take 2 ∈ [[' ', 'Q'], ['-', 'Q']] &&
    (chars.drop 6).all (· ∈ ['1', '2', '3', '4'])

/-- `_parse_date`. -/
def parseDate (value : Val) : Except Exc Date := do
  let value ← stripVal lib value
  match ← matchPattern lib value datePatterns with
  | some date => return date
  | none =>
    if isQuarter value then quarterStart lib value
    else raise .valueError s!"unsupported observation date: {value}"

/-- `_looks_like_period`. -/
def looksLikePeriod (value : String) : Except Exc Bool :=
  tryExcept ((parseDate lib (.str value)).map fun _ => true) [.valueError] fun _ => .ok false

/-- `_statcan_release_time`. -/
def statcanReleaseTime (value : Val) : Except Exc (Option Instant) :=
  if !value.truthy then .ok none
  else do
    let parsed ← strptimeVal lib value "%Y-%m-%dT%H:%M"
    let instant ← torontoToUtc lib parsed
    return some instant

/-- `_year_before`. -/
def yearBefore (value : Date) : Except Exc Date :=
  tryExcept (Date.make (value.year - 1) value.month value.day) [.valueError]
    fun _ => Date.make (value.year - 1) value.month 28

/-- `_optional_decimal`. -/
def optionalDecimal (value : Val) : Except Exc (Option Decimal) :=
  match value with
  | .none | .str "" => .ok none
  | _ => tryExcept ((lib.decimal (lib.str value)).map some) [.invalidOperation]
      fun _ => reject "economic calendar response contains an invalid number"

end

end TradeRecommender.Research
