import RagFlow.Lib.PyString
import RagFlow.Lib.Regex

/-!
# Bullets of headings

`rag/nlp/__init__.py`: the patterns of headings by category, the category that most sections have,
and the sections that are too short to be kept.
-/

namespace RagFlow.Chunking

open Lib

def chineseNumeral : Regex := .oneOf "零一二三四五六七八九十百"

def digit : Regex := .between '0' '9'

def anyNumeral : Regex := .alt chineseNumeral digit

/-- `[0-9]{,2}` -/
def shortNumber : Regex := .upTo 2 digit

/-- `第…章` and the like. -/
def ordinal (numeral : Regex) (unit : Regex) : Regex :=
  .inOrder [.literal "第", .plus numeral, unit]

def parenthesized (number : Regex) : Regex := .inOrder [.oneOf "(（", number, .oneOf ")）"]

/-- `[^a-zA-Z/%~-]` -/
def noUnit : Regex :=
  .char fun symbol => !(('a' ≤ symbol && symbol ≤ 'z') || ('A' ≤ symbol && symbol ≤ 'Z') ||
    "/%~-".toList.contains symbol)

def dot : Regex := .literal "."

/-- `.*` -/
def anything : Regex := .star (.noneOf "\n")

def BULLET_PATTERN : List (List Regex) :=
  [[ordinal anyNumeral (.alt (.seq (.optional (.literal "分")) (.literal "编")) (.literal "部分")),
      ordinal anyNumeral (.literal "章"),
      ordinal anyNumeral (.literal "节"),
      ordinal anyNumeral (.literal "条"),
      parenthesized (.plus chineseNumeral)],
    [ordinal digit (.literal "章"),
      ordinal digit (.literal "节"),
      .seq shortNumber (.oneOf ". 、"),
      .inOrder [shortNumber, dot, shortNumber, noUnit],
      .inOrder [shortNumber, dot, shortNumber, dot, shortNumber],
      .inOrder [shortNumber, dot, shortNumber, dot, shortNumber, dot, shortNumber]],
    [ordinal anyNumeral (.literal "章"),
      ordinal anyNumeral (.literal "节"),
      .seq (.plus chineseNumeral) (.oneOf " 、"),
      parenthesized (.plus chineseNumeral),
      parenthesized shortNumber],
    [.seq (.literal "PART ") (.anyOf (["ONE", "TWO", "THREE", "FOUR", "FIVE", "SIX", "SEVEN",
        "EIGHT", "NINE", "TEN"].map .literal)),
      .seq (.literal "Chapter ") (.anyOf [.seq (.plus (.literal "I")) (.optional (.literal "V")),
        .seq (.literal "V") (.star (.literal "I")), .literal "XI", .literal "IX", .literal "X"]),
      .seq (.literal "Section ") (.plus digit),
      .seq (.literal "Article ") (.plus digit)],
    [.seq (.literal "#") (.noneOf "#"),
      .seq (.literal "##") (.noneOf "#"),
      .seq (.literal "###") anything,
      .seq (.literal "####") anything,
      .seq (.literal "#####") anything,
      .seq (.literal "######") anything]]

def not_bullet (line : String) : Bool :=
  [.literal "0",
    .inOrder [.plus digit, .plus (.literal " "), .alt digit (.oneOf "~个只-")],
    .inOrder [.plus digit, .literal "..", .star dot]].any fun pattern : Regex =>
      pattern.isMatch line

/-- The index of the category that most sections have a bullet of, the first of them. -/
def bullets_category (sections : List String) : Option Nat :=
  let hits := BULLET_PATTERN.map fun patterns => sections.countP fun section_ =>
    patterns.any fun pattern =>
      pattern.isMatch (PyString.strip section_) && !not_bullet (PyString.strip section_)
  let step (best : Option Nat × Nat) (hit : Nat × Nat) : Option Nat × Nat :=
    if hit.1 ≤ best.2 then best else (some hit.2, hit.1)
  (hits.zipIdx.foldl step (none, 0)).1

def not_title (text : String) : Bool :=
  if (ordinal anyNumeral (.literal "条")).isMatch text then false
  else
    12 < (PyString.split text).length ||
      (!text.toList.contains ' ' && 32 ≤ text.length) ||
      (Regex.oneOf ",;，。；！!").isFound text

structure Section where
  text : String
  layout : String
  deriving DecidableEq

/-- `text.split("@")[0].strip()`: the text without its positions. -/
def withoutPosition (text : String) : String :=
  PyString.strip (String.ofList (text.toList.takeWhile (· ≠ '@')))

def isSubstantial (section_ : Section) : Bool :=
  section_.text ≠ "" && 1 < (withoutPosition section_.text).length &&
    !(Regex.seq (.plus digit) .atEnd).isMatch (withoutPosition section_.text)

/-- `re.search(r"(title|head)", layout)` -/
def hasTitleLayout (layout : String) : Bool :=
  (Regex.alt (.literal "title") (.literal "head")).isFound layout

def bulletIndex (patterns : List Regex) (text : String) : Option Nat :=
  patterns.findIdx? fun pattern => pattern.isMatch (PyString.strip text)

end RagFlow.Chunking
