import Pagnet.Data.Refusal
import Pagnet.Fabric.Reference

/-!
# Discovery requests

`DiscoverRequest` of `fabric/model.go`, its validation and its encoding.
-/

namespace Pagnet.Fabric
open Json

structure DiscoverRequest where
  query : String
  /-- `Scope.Domains`. -/
  domains : List String
  /-- `Filters.Kinds`, `Filters.Tags` and `Filters.Providers`. -/
  kinds : List String
  tags : List String
  providers : List String
  limit : Nat
  cursor : String
  deriving DecidableEq

namespace DiscoverRequest

/-- No value twice, and each one valid. -/
def validDomains (domains : List String) : Bool := domains.all (validText · 128) && decide domains.Nodup

/-- `Validate`: the message of the first check that fails. -/
def validate (r : DiscoverRequest) : Except String Unit := do
  refuse (4096 < r.query.utf8ByteSize || r.limit < 1 || 100 < r.limit || 4096 < r.cursor.utf8ByteSize ||
    16 < r.domains.length) "Discovery bounds exceeded"
  refuse (!validDomains r.domains) "Invalid or duplicate discovery scope"
  refuse (32 < r.kinds.length || 32 < r.tags.length || 32 < r.providers.length) "Too many search filters"
  refuse (!r.kinds.all validNamespacedName) "Invalid endpoint kind filter"
  refuse (!(r.tags ++ r.providers).all (validText · 256)) "Invalid search filter"

def strings (values : List String) : Value := .ofList (values.map .ofString)

def toJson (r : DiscoverRequest) : Value :=
  .ofFields ([("query", .ofString r.query), ("scope", .ofFields (omitEmpty "domains" [] strings r.domains)),
    ("filters", .ofFields (omitEmpty "kinds" [] strings r.kinds ++ omitEmpty "tags" [] strings r.tags ++
      omitEmpty "providers" [] strings r.providers)), ("limit", .ofInt r.limit)] ++
    omitEmpty "cursor" "" .ofString r.cursor)

end DiscoverRequest

end Pagnet.Fabric
