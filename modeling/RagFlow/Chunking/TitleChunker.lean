import Mathlib.Algebra.Group.Nat.Defs
import Mathlib.Data.List.Dedup
import Mathlib.Data.List.Sort
import RagFlow.Lib.PyString

/-!
# Line records and title levels

`rag/flow/chunker/title_chunker/common.py`: what the title chunkers get from upstream, one record
for each line, picture or table, and the level that a chunk begins at.
-/

namespace RagFlow.Chunking

structure Record where
  text : String
  doc_type_kwd : String
  deriving DecidableEq

namespace Record

variable (record : Record)

def isText : Bool := record.doc_type_kwd = "text"

def isBlank : Bool := Lib.PyString.strip record.text = ""

end Record

def BODY_LEVEL : Nat := 2 ^ 63 - 2

/-- `sorted({level for level in levels if 0 < level < BODY_LEVEL})` -/
def titleLevels (levels : List Nat) : List Nat :=
  (levels.filter fun level => 0 < level ∧ level < BODY_LEVEL).dedup.insertionSort (· ≤ ·)

/-- The deepest of the first title levels, as many as `hierarchy` says. -/
def resolve_target_level (levels : List Nat) (hierarchy : Int) : Option Nat :=
  (titleLevels levels)[min (max hierarchy 1).toNat (titleLevels levels).length - 1]?

end RagFlow.Chunking
