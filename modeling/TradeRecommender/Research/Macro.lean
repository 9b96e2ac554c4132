import TradeRecommender.Research.Text

/-!
# Macro series responses
-/

namespace TradeRecommender.Research

open Py Civil

/-- `MacroSeries.Parser`, and any other text its column may hold. -/
inductive MacroParser
  | bocValet | fredCsv | ecbCsv | boeCsv | statcanWds | blsJson | onsCsv | eurostatJson
  | landRegistryCsv | statcanZip | dateValueCsv
  | other (name : String)
  deriving DecidableEq

/-- `MacroSeries.Transformation`. -/
inductive Transformation
  | none | yearOverYear
  deriving DecidableEq

/-- `SourcePolicy`, the columns the ingests read. -/
structure SourcePolicy where
  pk : ℕ
  slug : String
  retentionClass : String
  deriving DecidableEq

/-- `MacroSeries`, the columns the ingests read. -/
structure MacroSeries where
  pk : ℕ
  sourcePolicy : SourcePolicy
  code : String
  providerSeriesId : String
  parser : MacroParser
  transformation : Transformation
  deriving DecidableEq

/-- A parsed observation. -/
structure MacroValue where
  period : Date
  value : Decimal
  normalizedValue : String
  availableAt : Option Instant
  providerStatus : String
  deriving DecidableEq

/-- A row of a response before its texts are read: period, value, release time, status. -/
structure RawRow where
  period : Val
  value : Val
  availableAt : Option Instant
  providerStatus : Val

section
variable (lib : Stdlib)

/-- `_bounded_zip_csv`. -/
def boundedZipCsv (body : Body) : Except Exc String :=
  tryExcept
    (do
      let entries ← lib.zipInfolist body
      let names := entries.filter fun entry =>
        ".csv".toList.isSuffixOf (lib.lower entry.filename).toList &&
          !lib.contains "metadata" (lib.lower entry.filename)
      match names with
      | [entry] =>
        if entry.fileSize > 2000000 then
          reject "Statistics Canada archive is not a bounded single-table CSV"
        else do
          let member ← lib.zipRead body entry
          lib.decode member
      | _ => reject "Statistics Canada archive is not a bounded single-table CSV")
    [.badZipFile, .unicodeDecodeError]
    fun _ => reject "Statistics Canada archive is invalid"

/-! ## Rows of each provider -/

/-- Bank of Canada Valet JSON. -/
def bocValetRows (series : MacroSeries) (text : String) : Except Exc (List RawRow) := do
  let payload ← lib.loads text
  let observations ← (← payload.get "observations" (.list [])).iter
  mapE (fun row => do
    let period ← row.get "d"
    let entry ← row.get series.providerSeriesId
    let value ← (entry.orElse (.dict [])).get "v"
    return ⟨period, value, none, .str ""⟩) observations

/-- Statistics Canada WDS JSON. -/
def statcanWdsRows (series : MacroSeries) (text : String) : Except Exc (List RawRow) := do
  let payload ← lib.loads text
  let items ← payload.iter
  let hit ← findE (fun item => do
    let vector ← (← item.get "object" (.dict [])).get "vectorId"
    return lib.str vector = series.providerSeriesId) items
  let found ← match hit with
    | some item => item.get "object" (.dict [])
    | none => pure .none
  if !found.truthy then
    reject "Statistics Canada response does not contain the requested vector"
  else do
    let points ← (← found.get "vectorDataPoint" (.list [])).iter
    mapE (fun row => do
      let period ← row.get "refPer"
      let value ← row.get "value"
      let release ← row.get "releaseTime"
      let availableAt ← statcanReleaseTime lib release
      let statusCode ← row.get "statusCode" (.int 0)
      let symbolCode ← row.get "symbolCode" (.int 0)
      let status := s!"status={lib.str statusCode}; symbol={lib.str symbolCode}"
      return ⟨period, value, availableAt, .str status⟩) points

/-- `value[1:]` as an f-string shows it. -/
def tailText : Val → Except Exc String
  | .str text => .ok (String.ofList (text.toList.drop 1))
  | .list items => .ok (lib.str (.list (items.drop 1)))
  | _ => raise .typeError "object is not sliceable"

/-- The text of a BLS footnote, which `join` needs to be a text. -/
def footnoteText (note : Val) : Except Exc (Option Val) :=
  if note.truthy then (note.get "text" (.str "")).map some else .ok none

/-- `"; ".join(texts)`. -/
def joinTexts (texts : List Val) : Except Exc String := do
  let texts ← mapE (fun text : Val => match text with
    | .str text => .ok text
    | _ => raise .typeError "sequence item: expected str instance") texts
  return "; ".intercalate texts

/-- US BLS JSON. -/
def blsJsonRows (series : MacroSeries) (text : String) : Except Exc (List RawRow) := do
  let payload ← lib.loads text
  let status ← payload.get "status"
  if !status.isStr "REQUEST_SUCCEEDED" then reject "BLS request did not succeed"
  else do
    let results ← payload.get "Results" (.dict [])
    let items ← (← results.get "series" (.list [])).iter
    let hit ← findE (fun item => do
      let id ← item.get "seriesID"
      return id.isStr series.providerSeriesId) items
    match hit with
    | none => reject "BLS response does not contain the requested series"
    | some found =>
      if !found.truthy then reject "BLS response does not contain the requested series"
      else do
        let data ← (← found.get "data" (.list [])).iter
        filterMapE (fun row => do
          let period ← row.get "period"
          if period.isStr "M13" then return none
          else do
            let year ← row.get "year"
            let month ← tailText lib (← row.get "period" (.str ""))
            let value ← row.get "value"
            let notes ← (← row.get "footnotes" (.list [])).iter
            let texts ← filterMapE footnoteText notes
            let footnotes ← joinTexts texts
            return some ⟨.str s!"{lib.str year}-{month}", value, none, .str footnotes⟩) data

/-- `index < n` for an index of unknown type. -/
def indexLt (index : Val) (n : ℕ) : Except Exc Bool :=
  match index with
  | .int i => .ok (i < n)
  | .bool b => .ok ((if b then 1 else 0) < n)
  | .float repr => .ok (lib.floatLt repr n)
  | _ => raise .typeError "'<' not supported"

/-- `items[i]`, a negative index counting from the end. -/
def itemAt (items : List Val) (i : ℤ) : Except Exc Val :=
  let j := if i < 0 then i + items.length else i
  if 0 ≤ j then
    match items[j.toNat]? with
    | some item => .ok item
    | none => raise .indexError "index out of range"
  else raise .indexError "index out of range"

/-- `values[index]` for values that are no dict. -/
def subscript (values index : Val) : Except Exc Val := do
  let items ← match values with
    | .list items => pure items
    | .str _ => values.iter
    | _ => raise .typeError "object is not subscriptable"
  match index with
  | .int i => itemAt items i
  | .bool b => itemAt items (if b then 1 else 0)
  | _ => raise .typeError "indices must be integers"

/-- `len(values)`. -/
def lenVal : Val → Except Exc ℕ
  | .str text => .ok text.length
  | .list items => .ok items.length
  | .dict entries => .ok entries.length
  | _ => raise .typeError "object has no len()"

/-- The periods of an Eurostat response with their indices. -/
def eurostatPositions (timeIndex : Val) : Except Exc (List (Val × Val)) :=
  match timeIndex with
  | .dict entries => .ok (entries.map fun entry => (.str entry.1, entry.2))
  | _ => do
    let periods ← timeIndex.iter
    return periods.zipIdx.map fun entry => (entry.1, .int entry.2)

/-- One position of an Eurostat response, if it has a value. -/
def eurostatRow (values statuses : Val) (available : Option Instant) (position : Val × Val) :
    Except Exc (Option RawRow) := do
  let key := lib.str position.2
  let present ← match values with
    | .dict entries => pure (entries.lookup key).isSome
    | _ => do
      let n ← lenVal values
      indexLt lib position.2 n
  if !present then return none
  else do
    let value ← if values.isDict then values.get key else subscript values position.2
    let status ← if statuses.isDict then statuses.get key (.str "") else pure (.str "")
    return some ⟨position.1, value, available, .str (lib.str status)⟩

/-- Eurostat JSON-stat. -/
def eurostatJsonRows (text : String) : Except Exc (List RawRow) := do
  let payload ← lib.loads text
  let dimension ← payload.get "dimension" (.dict [])
  let time ← dimension.get "time" (.dict [])
  let category ← time.get "category" (.dict [])
  let timeIndex ← category.get "index" (.dict [])
  let positions ← eurostatPositions timeIndex
  let values ← payload.get "value" (.dict [])
  let statuses ← payload.get "status" (.dict [])
  let available ← parseDatetime lib (← payload.get "updated")
  filterMapE (eurostatRow lib values statuses available) positions

/-- A CSV with a header: the columns that hold the period and the value. -/
def columnRows (period value : String) (records : List Val) : Except Exc (List RawRow) :=
  mapE (fun row => do
    let period ← row.get period
    let value ← row.get value
    return ⟨period, value, none, .str ""⟩) records

/-- UK ONS generator CSV: the rows that open with a period. -/
def onsCsvRows (text : String) : Except Exc (List RawRow) := do
  let rows ← lib.csvRows text
  filterMapE (fun row => match row with
    | period :: value :: _ => do
      let dated ← looksLikePeriod lib period
      return if dated then some ⟨.str period, .str value, none, .str ""⟩ else none
    | _ => .ok none) rows

/-- Statistics Canada table: the rows of the vector. -/
def statcanZipRows (series : MacroSeries) (records : List Val) : Except Exc (List RawRow) :=
  filterMapE (fun row => do
    let vector ← match ← row.get "VECTOR" (.str "") with
      | .str text => pure (lib.lstrip text "v")
      | _ => raise .attributeError "object has no attribute 'lstrip'"
    if vector ≠ series.providerSeriesId then return none
    else do
      let period ← row.get "REF_DATE"
      let value ← row.get "VALUE"
      let status ← row.get "STATUS" (.str "")
      return some ⟨period, value, none, status⟩) records

/-- The rows of a response, by the parser the series names. -/
def macroRows (series : MacroSeries) (text : String) : Except Exc (List RawRow) :=
  match series.parser with
  | .bocValet => bocValetRows lib series text
  | .statcanWds => statcanWdsRows lib series text
  | .blsJson => blsJsonRows lib series text
  | .eurostatJson => eurostatJsonRows lib text
  | .fredCsv => do
    columnRows "observation_date" series.providerSeriesId (← lib.csvDictRows text)
  | .ecbCsv => do columnRows "TIME_PERIOD" "OBS_VALUE" (← lib.csvDictRows text)
  | .boeCsv => do columnRows "DATE" series.providerSeriesId (← lib.csvDictRows text)
  | .onsCsv => do
    -- the dict reader runs over every CSV, also where its rows are not used
    let _ ← lib.csvDictRows text
    onsCsvRows lib text
  | .landRegistryCsv => do
    columnRows "ref period start" series.providerSeriesId (← lib.csvDictRows text)
  | .statcanZip => do statcanZipRows lib series (← lib.csvDictRows text)
  | .dateValueCsv => do columnRows "Date" "Price" (← lib.csvDictRows text)
  | .other name => do
    let _ ← lib.csvDictRows text
    reject s!"unsupported macro parser: {name}"

/-! ## Values -/

/-- The marks of a missing value. -/
def isMissing : Val → Bool
  | .none => true
  | .str text => text ∈ ["", ".", "-", "NA", ":"]
  | _ => false

/-- `provider_status[:80]`. -/
def statusText : Val → Except Exc String
  | .str text => .ok (slice 80 text)
  | _ => raise .typeError "object is not subscriptable"

/-- One row of the value loop; rows without a period or a value are skipped. -/
def macroValue (row : RawRow) : Except Exc (Option MacroValue) :=
  if !row.period.truthy then .ok none
  else if !row.value.hashable then raise .typeError "unhashable type"
  else if isMissing row.value then .ok none
  else do
    let (value, period) ← tryExcept
      (do
        let value ← lib.decimal (lib.str row.value)
        let period ← parseDate lib row.period
        return (value, period))
      [.invalidOperation, .valueError]
      fun _ => reject "macro response contains an invalid observation"
    let text ← lib.normalizedText value
    let status ← statusText row.providerStatus
    return some ⟨period, value, text, row.availableAt, status⟩

/-- The last 400 rows. -/
def recent (rows : List RawRow) : List RawRow := rows.drop (rows.length - 400)

/-- The change of a value against the one a year before, if that one is there and not zero. -/
def yearOverYear (values : List MacroValue) (item : MacroValue) :
    Except Exc (Option MacroValue) := do
  let before ← yearBefore item.period
  match values.reverse.find? (·.period = before) with
  | none => return none
  | some prior =>
    if !prior.value.truthy then return none
    else do
      let value ← lib.percentChange item.value prior.value
      let text ← lib.normalizedText value
      return some { item with value := value, normalizedValue := text }

/-- `parse_macro`. -/
def parseMacro (series : MacroSeries) (body : Body) : Except Exc (List MacroValue) := do
  let text ← if series.parser = .statcanZip then boundedZipCsv lib body else lib.decode body
  let rows ← macroRows lib series text
  let values ← filterMapE (macroValue lib) (recent rows)
  if values.isEmpty then reject "macro response contains no usable observations"
  else do
    let values ← if series.transformation = .yearOverYear then
        filterMapE (yearOverYear lib values) values
      else pure values
    if values.isEmpty then reject "macro transformation contains no usable observations"
    else return values

end

end TradeRecommender.Research
