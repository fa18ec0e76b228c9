import Blorp.Library.Path
import Blorp.Lib.Entries

/-!
# Names

The spelling table of `utils/names.brp`.  An ID is its spelling's position among the
keys of a Dict that only grows; the Dict is read as the association list it refines
(Library.dict_refines).  The seed's contextual and foundation words are spellings like
the others here: no phase below asks for them by role.
-/

namespace Blorp

open Library (Text)

structure NameTable where
  bySpelling : List (Text × Nat)

namespace NameTable

def keys (names : NameTable) : List Text := names.bySpelling.map (·.1)

def get (names : NameTable) (spelling : Text) : Option Nat :=
  Entries.lookup (fun first second => first == second) names.bySpelling spelling

def set (names : NameTable) (spelling : Text) (id : Nat) : NameTable :=
  ⟨Entries.put (fun first second => first == second) names.bySpelling spelling id⟩

end NameTable

/-- The spellings every program starts with, `main` first. -/
def seedWords : List String :=
  ["main", "fixed", "methods", "Int", "Float", "String", "Void", "List", "tail_recursive", "Bool",
    "True", "False", "Option", "Some", "None", "Result", "Ok", "Err", "Self", "Equatable", "equals",
    "not_equals", "Orderable", "less_than", "greater_than", "less_than_or_equal",
    "greater_than_or_equal", "Addable", "add", "Subtractable", "subtract", "Multipliable",
    "multiply", "Divisible", "divide", "Modulable", "remainder", "Negatable", "negate", "Dict",
    "empty", "dict", "set"]

def seedWord (names : NameTable) (spelling : String) : NameTable :=
  names.set spelling.toList names.bySpelling.length

/-- The seed table and the ID of `main`. -/
def programNames : NameTable × Nat := (seedWords.foldl seedWord ⟨[]⟩, 0)

/-- IDs are key positions, so equal key lists are equal mappings. -/
def sameNameTable (left right : NameTable) : Bool := left.keys == right.keys

def nameSpelling (names : NameTable) (id : Nat) : Option Text := names.keys[id]?

def internName (state : NameTable × List Nat) (spelling : Text) : NameTable × List Nat :=
  match state.1.get spelling with
  | some id => (state.1, state.2 ++ [id])
  | none =>
      let id := state.1.bySpelling.length
      (state.1.set spelling id, state.2 ++ [id])

def internNames (names : NameTable) (spellings : List Text) : NameTable × List Nat :=
  spellings.foldl internName (names, [])

end Blorp
