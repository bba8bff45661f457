import Bookkeeping.Catalog.Transaction
import Bookkeeping.Provider
import Bookkeeping.Settings

/-!
# Registries

A registry binds one owner's collection to the catalog of its domain. It is where rules get
their meaning. The domain's scope is applied to the collection once, here, so no condition has
to keep records out of scope itself.
-/

namespace Bookkeeping

/-- A catalog over an owner's records, with the provider and the settings rules run under. -/
structure Registry where
  catalog : Catalog
  /-- The records in scope. -/
  base : Collection
  provider : Option Provider := none
  settings : Settings := {}

/-- The catalog of a domain for an owner's vocabulary. -/
def Catalog.ofDomain (vocabulary : Vocabulary) : Domain → Catalog
  | .transaction => Transaction.catalog vocabulary

/-- The registry of a domain over all records of an owner. -/
def Registry.ofCollection (domain : Domain) (collection : Collection) (vocabulary : Vocabulary) :
    Registry :=
  let catalog := Catalog.ofDomain vocabulary domain
  { catalog, base := collection.restrict catalog.scope }

end Bookkeeping
