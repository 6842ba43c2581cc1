import RowReplay.Demo.Basic

/-! The report of a demonstration, for people and as JSON. -/
namespace RowReplay

def CacheStats.toJson (s : CacheStats) : Json :=
  .obj [("entries", .ofNat s.entries), ("hits", .ofNat s.hits),
    ("load_failures", .ofNat s.loadFailures), ("loads_started", .ofNat s.loadsStarted),
    ("misses", .ofNat s.misses), ("pending_loads", .ofNat s.pendingLoads),
    ("stale_hits", .ofNat s.staleHits)]

namespace Demo

def Summary.line (s : Summary) : String :=
  "  replay " ++ toString s.number ++ ": delivered " ++ toString s.delivered ++ "/" ++
    toString s.total ++ " rows, consumer saw " ++ toString s.consumed ++ " (" ++
    toString s.elapsedMillis ++ " ms)"

def cacheLine (s : CacheStats) : String :=
  "Cache: " ++ toString s.entries ++ (if s.entries = 1 then " entry, " else " entries, ") ++
    toString s.loadsStarted ++ " load(s), " ++ toString s.hits ++ " hit(s), " ++
    toString s.staleHits ++ " stale hit(s), " ++ toString s.misses ++ " miss(es)"

def Summary.toJson (s : Summary) : Json :=
  .obj [("consumed", .ofNat s.consumed), ("delivered", .ofNat s.delivered),
    ("elapsed_ms", .ofNat s.elapsedMillis), ("replay", .ofNat s.number),
    ("total", .ofNat s.total)]

namespace Report

/-- A line for the query, one for each replay, and one for the cache after an empty one. -/
def text (r : Report) : String :=
  String.intercalate "\n"
    (["Query: " ++ r.query] ++ r.replays.map Summary.line ++ ["\n" ++ cacheLine r.cache])

/-- Names are sorted. A time beyond 64 bits has no JSON form, and then the report has none. -/
def toJson (r : Report) : Json :=
  if r.replays.all (·.elapsedMillis < UInt64.size) then
    .obj [("cache", r.cache.toJson), ("query", .str r.query),
      ("replays", .arr (r.replays.map Summary.toJson))]
  else .null

end Report

end Demo

end RowReplay
