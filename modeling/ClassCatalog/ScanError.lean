/-!
# Errors of scans and queries
-/

namespace ClassCatalog

/-- Why a container could not be scanned or a query not be answered. -/
inductive ScanError where
  | containerUnreadable (path reason : String)
  | cacheCorrupt (key reason : String)
  | unknownReferenceType (name : String)
  | cancelled (path : String)
  deriving DecidableEq, Repr

def ScanError.message : ScanError → String
  | containerUnreadable path reason => "container unreadable: " ++ path ++ ": " ++ reason
  | cacheCorrupt key reason => "cache entry corrupt for " ++ key ++ ": " ++ reason
  | unknownReferenceType name => "unknown reference type: " ++ name
  | cancelled path => "scan of " ++ path ++ " cancelled"

end ClassCatalog
