import TradeRecommender.Research.Text

/-!
# RSS and Atom feeds
-/

namespace TradeRecommender.Research

open Py Civil

/-- A usable feed entry. -/
structure FeedItem where
  itemId : String
  url : String
  title : String
  publishedAt : Option Instant
  summary : String
  deriving DecidableEq

section
variable (lib : Stdlib)

/-- Query keys `canonicalize_url` drops. -/
def isTracking (key : String) : Bool :=
  "utm_".toList.isPrefixOf (lib.lower key).toList || lib.lower key ∈ ["fbclid", "gclid"]

/-- `canonicalize_url`. -/
def canonicalizeUrl (value : String) : Except Exc String := do
  let parsed ← lib.urlsplit (lib.strip value)
  if parsed.scheme ∉ ["http", "https"] ∨ parsed.hostname.getD "" = "" then
    reject "feed item has no valid canonical URL"
  else do
    let pairs ← lib.parseQsl parsed.query
    let query ← lib.urlencode (pairs.filter fun pair => !isTracking lib pair.1)
    return lib.urlunsplit (lib.lower parsed.scheme) (lib.lower parsed.netloc)
      (if parsed.path = "" then "/" else parsed.path) query

/-- One `item` or `entry` node; a node without a title or an address gives nothing. -/
def feedItem (node : Element) : Except Exc (Option FeedItem) := do
  let title ← plainText lib (childText node ["title"])
  let url := link node
  let guid := childText node ["guid", "id"]
  let itemId := if guid = "" then url else guid
  let publishedRaw := childText node ["pubDate", "published", "updated", "date"]
  let summary ← plainText lib (childText node ["description", "summary", "content", "encoded"])
  if title = "" ∨ url = "" then return none
  else do
    let canonical ← canonicalizeUrl lib url
    let publishedAt ← parseDatetime lib (.str publishedRaw)
    return some ⟨lib.strip itemId, canonical, slice 2000 title, publishedAt, slice 20000 summary⟩

/-- The nodes of a feed that are items. -/
def feedNodes (root : Element) : List Element :=
  root.iter.filter fun node => localName node.tag ∈ ["item", "entry"]

/-- `parse_feed`. -/
def parseFeed (body : Body) : Except Exc (List FeedItem) :=
  match lib.fromstring body with
  | .error error => reject s!"unsafe or invalid XML: {error.text}"
  | .ok root =>
    if (feedNodes root).isEmpty then reject "RSS/Atom document contains no items"
    else do
      let items ← filterMapE (feedItem lib) (feedNodes root)
      if items.isEmpty then reject "RSS/Atom document contains no usable items"
      else return items

end

end TradeRecommender.Research
