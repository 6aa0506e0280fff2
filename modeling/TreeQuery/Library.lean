import TreeQuery.Library.Collections
import TreeQuery.Library.Functions
import TreeQuery.Library.Nodes
import TreeQuery.Library.Numbers
import TreeQuery.Library.Sequences
import TreeQuery.Library.Texts

/-!
# The library

The functions that every expression can call.
-/

namespace TreeQuery

/-- All functions of the library. -/
def Library.functions : List LibraryFunction :=
  Library.truths ++ Library.sequences ++ Library.texts ++ Library.numbers ++ Library.nodes ++
    Library.higherOrder ++ Library.collections

/-- The registry of the library. -/
def Registry.library : Registry := Library.functions.foldl Registry.register .empty

end TreeQuery
