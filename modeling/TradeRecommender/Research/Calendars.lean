import TradeRecommender.Research.Text

/-!
# Economic and official release calendars
-/

namespace TradeRecommender.Research

open Py Civil

/-- A parsed calendar entry. -/
structure CalendarValue where
  eventAt : Instant
  country : String
  eventType : String
  comparison : String := ""
  period : String := ""
  actual : Option Decimal := none
  estimate : Option Decimal := none
  previous : Option Decimal := none
  providerEventKey : String := ""
  sourceUrl : String := ""
  status : String := "scheduled"
  timePrecision : String := "exact"
  seriesCode : String := ""
  deriving DecidableEq

section
variable (lib : Stdlib)

/-- `str(value or "")`. -/
def textOf (value : Val) : String := lib.str (value.orElse (.str ""))

/-! ## EODHD -/

/-- The identity of an EODHD row; anything amiss in it rejects the calendar. -/
def eodhdIdentity (row : Val) : Except Exc (Instant × String × String) :=
  tryExcept
    (do
      let parsed ← strptimeVal lib (← row.getItem "date") "%Y-%m-%d %H:%M:%S"
      let country ← row.getItem "country"
      let eventType ← row.getItem "type"
      return (parsed.wall, lib.upper (lib.str country), lib.strip (lib.str eventType)))
    [.keyError, .typeError, .valueError]
    fun _ => reject "economic calendar response contains an invalid event"

/-- One EODHD row. -/
def eodhdEvent (row : Val) : Except Exc CalendarValue := do
  let (eventAt, country, eventType) ← eodhdIdentity lib row
  if country.length ≠ 2 ∨ eventType = "" then
    reject "economic calendar response contains an invalid event identity"
  else do
    let comparison ← row.get "comparison"
    let period ← row.get "period"
    let actual ← optionalDecimal lib (← row.get "actual")
    let estimate ← optionalDecimal lib (← row.get "estimate")
    let previous ← optionalDecimal lib (← row.get "previous")
    return { eventAt, country, eventType, actual, estimate, previous
             comparison := slice 12 (textOf lib comparison)
             period := slice 40 (textOf lib period) }

/-- `parse_eodhd_events`. -/
def parseEodhdEvents (body : Body) : Except Exc (List CalendarValue) := do
  let payload ← lib.loads (← lib.decode body)
  match payload with
  | .list rows => mapE (eodhdEvent lib) rows
  | _ => reject "economic calendar response is not a list"

/-! ## Official calendars -/

/-- `_require_calendar_values`. -/
def requireCalendarValues (values : List CalendarValue) (provider : String) :
    Except Exc (List CalendarValue) :=
  if values.isEmpty then reject s!"{provider} calendar contains no tracked releases"
  else .ok values

/-- `json.loads` of a calendar, decoding errors rejected. -/
def loadCalendar (body : Body) (invalid : String) : Except Exc Val :=
  tryExcept (do lib.loads (← lib.decode body)) [.unicodeDecodeError, .jsonDecodeError]
    fun _ => reject invalid

/-- `_decode_html`. -/
def decodeHtml (body : Body) (provider : String) : Except Exc String :=
  tryExcept (lib.decode body) [.unicodeDecodeError]
    fun _ => reject s!"{provider} calendar is not UTF-8"

/-- The `item` nodes of a calendar in XML, any parse error rejected. -/
def calendarNodes (body : Body) (provider : String) : Except Exc (List Element) :=
  match lib.fromstring body with
  | .error error => reject s!"{provider} calendar is invalid XML: {error.text}"
  | .ok root => .ok (root.iter.filter fun item => localName item.tag = "item")

/-- A parsed date, any `ValueError` rejected. -/
def releaseDate (parsed : Except Exc Naive) (invalid : String) : Except Exc Naive :=
  tryExcept parsed [.valueError] fun _ => reject invalid

/-- The series code of the first phrase the text contains. -/
def phraseCode (mappings : List (String × String)) (text : String) : String :=
  ((mappings.find? fun mapping => lib.contains mapping.1 text).map (·.2)).getD ""

def statcanMappings : List (String × String) :=
  [("Consumer Price Index", "CA_CPI_YOY"),
   ("Labour Force Survey", "CA_UNEMPLOYMENT"),
   ("Gross domestic product by industry", "CA_REAL_GDP_GROWTH"),
   ("Gross domestic product, income and expenditure", "CA_REAL_GDP_GROWTH"),
   ("Building permits", "CA_HOUSING_STARTS")]

/-- One row of the Statistics Canada schedule, if it is tracked. -/
def statcanRelease (row : Val) : Except Exc (Option CalendarValue) := do
  let title := lib.strip (textOf lib (← row.get "title"))
  match statcanMappings.lookup title with
  | none => return none
  | some seriesCode =>
    let parsed ← tryExcept
      (do lib.strptime (slice 10 (lib.str (← row.getItem "date"))) "%Y-%m-%d")
      [.keyError, .valueError]
      fun _ => reject "Statistics Canada calendar contains an invalid date"
    let eventAt ← torontoToUtc lib (← parsed.replaceTime 8 30)
    let period := slice 40 (lib.strip (textOf lib (← row.get "description")))
    let url ← row.get "url"
    let sourceUrl ← lib.urljoin "https://www150.statcan.gc.ca/n1/"
      (lib.lstrip (textOf lib url) "/")
    return some { eventAt, country := "CA", eventType := title, period, seriesCode
                  providerEventKey := s!"{title}|{period}"
                  sourceUrl := if url.truthy then sourceUrl else "" }

/-- `_parse_statcan_calendar`. -/
def parseStatcanCalendar (body : Body) : Except Exc (List CalendarValue) := do
  let payload ← loadCalendar lib body "Statistics Canada calendar is invalid JSON"
  let values ← filterMapE (statcanRelease lib)
    (match payload with
    | .list rows => rows
    | _ => [])
  requireCalendarValues values "Statistics Canada"

def beaMappings : List (String × String) :=
  [("Gross Domestic Product", "US_REAL_GDP_GROWTH"), ("Personal Income and Outlays", "")]

/-- The releases of one BEA title. -/
def beaReleases (payload : Val) (mapping : String × String) :
    Except Exc (List CalendarValue) := do
  let entry ← payload.get mapping.1
  let dates ← (← (entry.orElse (.dict [])).get "release_dates" (.list [])).iter
  mapE (fun rawDate => do
    match ← parseDatetime lib rawDate with
    | none => reject "BEA calendar contains an invalid date"
    | some eventAt =>
      return { eventAt, country := "US", eventType := mapping.1, seriesCode := mapping.2
               providerEventKey := s!"{mapping.1}|{lib.isoformat eventAt}"
               sourceUrl := "https://www.bea.gov/news/schedule" }) dates

/-- `_parse_bea_calendar`. -/
def parseBeaCalendar (body : Body) : Except Exc (List CalendarValue) := do
  let payload ← loadCalendar lib body "BEA calendar is invalid JSON"
  let values ← mapE (beaReleases lib payload) beaMappings
  requireCalendarValues values.flatten "BEA"

def onsMappings : List (String × String) :=
  [("consumer price inflation", "GB_CPI_YOY"),
   ("uk labour market", "GB_UNEMPLOYMENT"),
   ("gdp monthly estimate", "GB_REAL_GDP_GROWTH"),
   ("gdp quarterly national accounts", "GB_REAL_GDP_GROWTH"),
   ("private rent and house prices", "GB_HOUSE_PRICE_YOY")]

/-- One item of the ONS release calendar, if it is tracked. -/
def onsRelease (node : Element) : Except Exc (Option CalendarValue) := do
  let title ← plainText lib (childText node ["title"])
  let lowered := lib.lower title
  let seriesCode := phraseCode lib onsMappings lowered
  if lib.contains "time series" lowered ∨ seriesCode = "" then return none
  else do
    let eventAt ← parseDatetime lib (.str (childText node ["pubDate"]))
    let sourceUrl := lib.strip (link node)
    match eventAt with
    | none => reject "ONS calendar contains an invalid event"
    | some eventAt =>
      if sourceUrl = "" then reject "ONS calendar contains an invalid event"
      else
        let guid := childText node ["guid"]
        return some { eventAt, country := "GB", eventType := title, sourceUrl, seriesCode
                      providerEventKey := lib.strip (if guid = "" then sourceUrl else guid) }

/-- `_parse_ons_calendar`. -/
def parseOnsCalendar (body : Body) : Except Exc (List CalendarValue) := do
  let values ← filterMapE (onsRelease lib) (← calendarNodes lib body "ONS")
  requireCalendarValues values "ONS"

def eurostatMappings : List (String × String) :=
  [("inflation", "EU_HICP_YOY"), ("unemployment", "EU_UNEMPLOYMENT"),
   ("gdp", "EU_REAL_GDP_GROWTH"), ("house price", "EU_HOUSE_PRICE_INDEX")]

/-- `text.split(":", 1)` of a line that has a colon. -/
def splitField (line : String) : Option (String × String) :=
  if ':' ∈ line.toList then
    some (String.ofList (line.toList.takeWhile (· ≠ ':')),
      String.ofList ((line.toList.dropWhile (· ≠ ':')).drop 1))
  else none

/-- The fields of an iCalendar event; a later line of a name replaces an earlier one. -/
def eventFields (event : String) : List (String × String) :=
  ((lib.splitlines event).filterMap splitField).reverse.map fun field =>
    (String.ofList (field.1.toList.takeWhile (· ≠ ';')),
      lib.replace (lib.strip field.2) "\\," ",")

/-- One event of the Eurostat calendar, if it is tracked. -/
def eurostatRelease (block : String) : Except Exc (Option CalendarValue) := do
  let fields := eventFields lib ((lib.split block "END:VEVENT").headD "")
  let title := lib.strip ((fields.lookup "SUMMARY").getD "")
  let seriesCode := phraseCode lib eurostatMappings (lib.lower title)
  if seriesCode = "" then return none
  else do
    let rawDate := (fields.lookup "DTSTART").getD ""
    let parsed ← releaseDate (lib.strptime rawDate "%Y%m%d")
      "Eurostat calendar contains a non-date event"
    return some { eventAt := parsed.wall, country := "EU", eventType := title, seriesCode
                  timePrecision := "date", providerEventKey := s!"{title}|{rawDate}"
                  sourceUrl := "https://ec.europa.eu/eurostat/news/release-calendar" }

/-- `_parse_eurostat_calendar`. -/
def parseEurostatCalendar (body : Body) : Except Exc (List CalendarValue) := do
  let text ← decodeHtml lib body "Eurostat"
  let unfolded := lib.replace (lib.replace (lib.replace text "\r\n" "\n") "\n " "") "\n\t" ""
  let values ← filterMapE (eurostatRelease lib) ((lib.split unfolded "BEGIN:VEVENT").drop 1)
  requireCalendarValues values "Eurostat"

/-- One item of the Bank of Canada calendar, if it is a policy announcement. -/
def bocRelease (node : Element) : Except Exc (Option CalendarValue) := do
  let title ← plainText lib (childText node ["title"])
  if !"interest rate announcement".toList.isPrefixOf (lib.lower title).toList then return none
  else do
    let occurrence := descendantText lib node ["occurrenceDate"]
    let description ← plainText lib (childText node ["description"])
    let found := lib.search "\\b(\\d\x7b1,2\x7d):(\\d\x7b2\x7d)\\s*\\(ET\\)" description
    let parsed ← releaseDate (lib.strptime occurrence "%Y-%m-%d")
      "Bank of Canada calendar contains an invalid date"
    match found with
    | some [hour, minute] => do
      let eventAt ← torontoToUtc lib (← parsed.replaceTime (← lib.int hour) (← lib.int minute))
      let sourceUrl := lib.strip (link node)
      if sourceUrl = "" then reject "Bank of Canada policy event has no source URL"
      else return some { eventAt, country := "CA", eventType := title, sourceUrl
                         providerEventKey := sourceUrl, seriesCode := "CA_POLICY_RATE" }
    | _ => reject "Bank of Canada policy event has no documented Eastern time"

/-- `_parse_boc_calendar`. -/
def parseBocCalendar (body : Body) : Except Exc (List CalendarValue) := do
  let values ← filterMapE (bocRelease lib) (← calendarNodes lib body "Bank of Canada")
  requireCalendarValues values "Bank of Canada"

/-- A date-only decision of a central bank. -/
def decision (parsed : Naive) (country eventType prefixKey sourceUrl seriesCode : String) :
    CalendarValue :=
  { eventAt := parsed.wall, country, eventType, sourceUrl, seriesCode, timePrecision := "date"
    providerEventKey := s!"{prefixKey}|{parsed.date.isoformat}" }

/-- One meeting of a year's section of the Federal Reserve calendar. -/
def fedMeeting (year : ℤ) (groups : List String) : Except Exc CalendarValue := do
  let rawDays := lib.replace (← plainText lib (groups.getD 1 "")) "*" ""
  match (lib.finditer "\\d\x7b1,2\x7d" rawDays).getLast? with
  | none => reject "Federal Reserve calendar contains an invalid date"
  | some finalDay => do
    let month := groups.headD ""
    let dayText := finalDay.headD ""
    let text := s!"{lib.str (.int year)} {month} {dayText}"
    let parsed ← releaseDate (lib.strptime text "%Y %B %d")
      "Federal Reserve calendar contains an invalid date"
    return decision parsed "US" "FOMC monetary policy decision" "FOMC"
      "https://www.federalreserve.gov/monetarypolicy/fomccalendars.htm" "US_POLICY_TARGET_UPPER"

/-- `_parse_fed_calendar`. -/
def parseFedCalendar (body : Body) : Except Exc (List CalendarValue) := do
  let text ← decodeHtml lib body "Federal Reserve"
  let sections := lib.finditer
    ">(20\\d\x7b2\x7d) FOMC Meetings</a>(.*?)(?=>(?:20\\d\x7b2\x7d) FOMC Meetings</a>|$)" text
  let values ← mapE (fun groups => do
    let year ← lib.int (groups.headD "")
    mapE (fedMeeting lib year)
      (lib.finditer ("fomc-meeting__month[^>]*><strong>([A-Za-z]+)</strong>.*?" ++
        "fomc-meeting__date[^>]*>([^<]+)") (groups.getD 1 ""))) sections
  requireCalendarValues values.flatten "Federal Reserve"

/-- `_parse_boe_calendar`. -/
def parseBoeCalendar (body : Body) : Except Exc (List CalendarValue) := do
  let text ← decodeHtml lib body "Bank of England"
  let sections := lib.finditer
    "<h2>(20\\d\x7b2\x7d) (?:confirmed|provisional) dates</h2>(.*?)(?=<h2>|$)" text
  let values ← mapE (fun groups => do
    let year ← lib.int (groups.headD "")
    let sectionText ← plainText lib (groups.getD 1 "")
    mapE (fun entry : List String => do
      let month := entry.getD 1 ""
      let dayText := entry.headD ""
      let text := s!"{lib.str (.int year)} {month} {dayText}"
      let parsed ← releaseDate (lib.strptime text "%Y %B %d")
        "Bank of England calendar contains an invalid date"
      return decision parsed "GB" "Bank of England MPC decision" "BOE-MPC"
        "https://www.bankofengland.co.uk/monetary-policy/upcoming-mpc-dates" "GB_BANK_RATE")
      (lib.finditer
        "(?:Monday|Tuesday|Wednesday|Thursday|Friday)\\s+(\\d\x7b1,2\x7d)\\s+([A-Za-z]+)"
        sectionText)) sections
  requireCalendarValues values.flatten "Bank of England"

/-- One entry of the ECB calendar, if it is the second day of a monetary policy meeting. -/
def ecbMeeting (groups : List String) : Except Exc (Option CalendarValue) := do
  let description := lib.lower (← plainText lib (groups.getD 1 ""))
  if !lib.contains "monetary policy meeting" description ∨ !lib.contains "day 2" description then
    return none
  else do
    let parsed ← releaseDate (lib.strptime (lib.strip (groups.headD "")) "%d/%m/%Y")
      "ECB calendar contains an invalid date"
    return some (decision parsed "EU" "ECB monetary policy decision" "ECB-MP"
      "https://www.ecb.europa.eu/press/calendars/mgcgc/html/index.en.html"
      "EU_DEPOSIT_FACILITY_RATE")

/-- `_parse_ecb_calendar`. -/
def parseEcbCalendar (body : Body) : Except Exc (List CalendarValue) := do
  let text ← decodeHtml lib body "ECB"
  let values ← filterMapE (ecbMeeting lib)
    (lib.finditer "<dt>\\s*([^<]+)\\s*</dt>\\s*<dd>(.*?)</dd>" text)
  requireCalendarValues values "ECB"

/-- `parse_official_calendar`. -/
def parseOfficialCalendar (parser : String) (body : Body) : Except Exc (List CalendarValue) :=
  match parser with
  | "statcan" => parseStatcanCalendar lib body
  | "bea" => parseBeaCalendar lib body
  | "ons" => parseOnsCalendar lib body
  | "eurostat" => parseEurostatCalendar lib body
  | "boc" => parseBocCalendar lib body
  | "fed" => parseFedCalendar lib body
  | "boe" => parseBoeCalendar lib body
  | "ecb" => parseEcbCalendar lib body
  | _ => reject s!"unsupported official calendar parser: {parser}"

/-! ### The series code tells the country -/

/-- The country of a tracked series; `Personal Income and Outlays` has no series. -/
def seriesCountry (code : String) : String :=
  if code = "" then "US" else String.ofList (code.toList.take 2)

variable {lib}

theorem requireCalendarValues_ok {values kept : List CalendarValue} {provider : String}
    (h : requireCalendarValues values provider = .ok kept) : kept = values := by
  unfold requireCalendarValues at h
  split at h
  · cases h
  · exact (Except.ok.inj h).symm

theorem phraseCode_mem {mappings : List (String × String)} {text : String}
    (h : phraseCode lib mappings text ≠ "") :
    phraseCode lib mappings text ∈ mappings.map (·.2) := by
  unfold phraseCode at h ⊢
  cases found : mappings.find? fun mapping => lib.contains mapping.1 text with
  | none => simp [found] at h
  | some mapping => exact List.mem_map_of_mem (List.mem_of_find?_eq_some found)

theorem statcanRelease_country {row : Val} {item : CalendarValue}
    (h : statcanRelease lib row = .ok (some item)) :
    item.country = seriesCountry item.seriesCode := by
  obtain ⟨title, -, h⟩ := bind_eq_ok.mp h
  have codes : ∀ mapping ∈ statcanMappings, "CA" = seriesCountry mapping.2 := by decide
  dsimp only at h
  split at h
  · cases h
  · next code found =>
    obtain ⟨parsed, -, h⟩ := bind_eq_ok.mp h
    obtain ⟨moved, -, h⟩ := bind_eq_ok.mp h
    obtain ⟨eventAt, -, h⟩ := bind_eq_ok.mp h
    obtain ⟨description, -, h⟩ := bind_eq_ok.mp h
    obtain ⟨url, -, h⟩ := bind_eq_ok.mp h
    obtain ⟨sourceUrl, -, h⟩ := bind_eq_ok.mp h
    cases h
    obtain ⟨pre, post, split, -⟩ := List.lookup_eq_some_iff.mp found
    exact codes (lib.strip (textOf lib title), code) (by rw [split]; simp)

theorem beaReleases_country {payload : Val} {mapping : String × String}
    (tracked : mapping ∈ beaMappings) {items : List CalendarValue} {item : CalendarValue}
    (h : beaReleases lib payload mapping = .ok items) (member : item ∈ items) :
    item.country = seriesCountry item.seriesCode := by
  have codes : ∀ mapping ∈ beaMappings, "US" = seriesCountry mapping.2 := by decide
  obtain ⟨entry, -, h⟩ := bind_eq_ok.mp h
  obtain ⟨dates, -, h⟩ := bind_eq_ok.mp h
  obtain ⟨listed, -, h⟩ := bind_eq_ok.mp h
  obtain ⟨rawDate, -, h⟩ := mem_mapE h member
  obtain ⟨parsed, -, h⟩ := bind_eq_ok.mp h
  split at h
  · cases h
  · cases h
    exact codes _ tracked

theorem onsRelease_country {node : Element} {item : CalendarValue}
    (h : onsRelease lib node = .ok (some item)) :
    item.country = seriesCountry item.seriesCode := by
  have codes : ∀ code ∈ onsMappings.map (·.2), "GB" = seriesCountry code := by decide
  obtain ⟨title, -, h⟩ := bind_eq_ok.mp h
  dsimp only at h
  split at h
  · cases h
  · next tracked =>
    obtain ⟨eventAt, -, h⟩ := bind_eq_ok.mp h
    split at h
    · cases h
    · split at h
      · cases h
      · cases h
        exact codes _ (phraseCode_mem fun none => tracked (Or.inr none))

theorem eurostatRelease_country {block : String} {item : CalendarValue}
    (h : eurostatRelease lib block = .ok (some item)) :
    item.country = seriesCountry item.seriesCode := by
  have codes : ∀ code ∈ eurostatMappings.map (·.2), "EU" = seriesCountry code := by decide
  unfold eurostatRelease at h
  dsimp only at h
  split at h
  · cases h
  · next tracked =>
    obtain ⟨parsed, -, h⟩ := bind_eq_ok.mp h
    cases h
    exact codes _ (phraseCode_mem tracked)

theorem bocRelease_country {node : Element} {item : CalendarValue}
    (h : bocRelease lib node = .ok (some item)) :
    item.country = seriesCountry item.seriesCode := by
  obtain ⟨title, -, h⟩ := bind_eq_ok.mp h
  split at h
  · cases h
  · obtain ⟨description, -, h⟩ := bind_eq_ok.mp h
    obtain ⟨parsed, -, h⟩ := bind_eq_ok.mp h
    split at h
    · obtain ⟨hour, -, h⟩ := bind_eq_ok.mp h
      obtain ⟨minute, -, h⟩ := bind_eq_ok.mp h
      obtain ⟨moved, -, h⟩ := bind_eq_ok.mp h
      obtain ⟨eventAt, -, h⟩ := bind_eq_ok.mp h
      dsimp only at h
      split at h
      · cases h
      · cases h
        show "CA" = seriesCountry "CA_POLICY_RATE"
        decide
    · cases h

theorem fedMeeting_country {year : ℤ} {groups : List String} {item : CalendarValue}
    (h : fedMeeting lib year groups = .ok item) :
    item.country = seriesCountry item.seriesCode := by
  obtain ⟨days, -, h⟩ := bind_eq_ok.mp h
  dsimp only at h
  split at h
  · cases h
  · obtain ⟨parsed, -, h⟩ := bind_eq_ok.mp h
    cases h
    show "US" = seriesCountry "US_POLICY_TARGET_UPPER"
    decide

theorem ecbMeeting_country {groups : List String} {item : CalendarValue}
    (h : ecbMeeting lib groups = .ok (some item)) :
    item.country = seriesCountry item.seriesCode := by
  obtain ⟨description, -, h⟩ := bind_eq_ok.mp h
  dsimp only at h
  split at h
  · cases h
  · obtain ⟨parsed, -, h⟩ := bind_eq_ok.mp h
    cases h
    show "EU" = seriesCountry "EU_DEPOSIT_FACILITY_RATE"
    decide

/-- Every entry of an official calendar has the country its series code names. -/
theorem parseOfficialCalendar_country {parser : String} {body : Body}
    {values : List CalendarValue} (h : parseOfficialCalendar lib parser body = .ok values) :
    ∀ item ∈ values, item.country = seriesCountry item.seriesCode := by
  intro item member
  unfold parseOfficialCalendar at h
  split at h
  · obtain ⟨payload, -, h⟩ := bind_eq_ok.mp h
    obtain ⟨items, looped, h⟩ := bind_eq_ok.mp h
    obtain rfl := requireCalendarValues_ok h
    obtain ⟨row, -, h⟩ := mem_filterMapE looped member
    exact statcanRelease_country h
  · obtain ⟨payload, -, h⟩ := bind_eq_ok.mp h
    obtain ⟨items, looped, h⟩ := bind_eq_ok.mp h
    obtain rfl := requireCalendarValues_ok h
    obtain ⟨some, hsome, member⟩ := List.mem_flatten.mp member
    obtain ⟨mapping, tracked, h⟩ := mem_mapE looped hsome
    exact beaReleases_country tracked h member
  · obtain ⟨nodes, -, h⟩ := bind_eq_ok.mp h
    obtain ⟨items, looped, h⟩ := bind_eq_ok.mp h
    obtain rfl := requireCalendarValues_ok h
    obtain ⟨row, -, h⟩ := mem_filterMapE looped member
    exact onsRelease_country h
  · obtain ⟨text, -, h⟩ := bind_eq_ok.mp h
    obtain ⟨items, looped, h⟩ := bind_eq_ok.mp h
    obtain rfl := requireCalendarValues_ok h
    obtain ⟨row, -, h⟩ := mem_filterMapE looped member
    exact eurostatRelease_country h
  · obtain ⟨nodes, -, h⟩ := bind_eq_ok.mp h
    obtain ⟨items, looped, h⟩ := bind_eq_ok.mp h
    obtain rfl := requireCalendarValues_ok h
    obtain ⟨row, -, h⟩ := mem_filterMapE looped member
    exact bocRelease_country h
  · obtain ⟨text, -, h⟩ := bind_eq_ok.mp h
    obtain ⟨items, looped, h⟩ := bind_eq_ok.mp h
    obtain rfl := requireCalendarValues_ok h
    obtain ⟨ofYear, hyear, member⟩ := List.mem_flatten.mp member
    obtain ⟨groups, -, h⟩ := mem_mapE looped hyear
    obtain ⟨year, -, h⟩ := bind_eq_ok.mp h
    obtain ⟨meeting, -, h⟩ := mem_mapE h member
    exact fedMeeting_country h
  · obtain ⟨text, -, h⟩ := bind_eq_ok.mp h
    obtain ⟨items, looped, h⟩ := bind_eq_ok.mp h
    obtain rfl := requireCalendarValues_ok h
    obtain ⟨ofYear, hyear, member⟩ := List.mem_flatten.mp member
    obtain ⟨groups, -, h⟩ := mem_mapE looped hyear
    obtain ⟨year, -, h⟩ := bind_eq_ok.mp h
    obtain ⟨sectionText, -, h⟩ := bind_eq_ok.mp h
    obtain ⟨entry, -, h⟩ := mem_mapE h member
    obtain ⟨parsed, -, h⟩ := bind_eq_ok.mp h
    cases h
    show "GB" = seriesCountry "GB_BANK_RATE"
    decide
  · obtain ⟨text, -, h⟩ := bind_eq_ok.mp h
    obtain ⟨items, looped, h⟩ := bind_eq_ok.mp h
    obtain rfl := requireCalendarValues_ok h
    obtain ⟨groups, -, h⟩ := mem_filterMapE looped member
    exact ecbMeeting_country h
  · cases h

end

end TradeRecommender.Research
