import Mathlib.Algebra.Ring.Nat
import RagFlow.Lib.GoString

/-!
# Think tags

`internal/service/think_tag.go`: the chunks of a streamed response are searched for `<think>` and
`</think>` one after the other; `ExtractVisibleAnswer` strips the blocks from a whole response.
Texts are lists of symbols that show a character each.
-/

namespace RagFlow.Ask

open RagFlow.Lib

universe u

def thinkOpen : List Char := "<think>".toList

def thinkClose : List Char := "</think>".toList

structure ThinkStreamState (Symbol : Type u) where
  fullText : List Symbol
  lastIdx : Nat
  lastFull : List Symbol
  lastModelFull : List Symbol
  inThink : Bool
  buffer : List Symbol
  postThinkText : List Symbol

variable {Symbol : Type u}

/-- `&ThinkStreamState{}` -/
def ThinkStreamState.zero : ThinkStreamState Symbol where
  fullText := []
  lastIdx := 0
  lastFull := []
  lastModelFull := []
  inThink := false
  buffer := []
  postThinkText := []

inductive ThinkDelta (Symbol : Type u) where
  | text (value : List Symbol)
  | marker (value : List Char)
  deriving DecidableEq

namespace ThinkDelta

def isMarker : ThinkDelta Symbol → Bool
  | .text _ => false
  | .marker _ => true

def shown : ThinkDelta Symbol → List Symbol
  | .text value => value
  | .marker _ => []

end ThinkDelta

variable (char : Symbol → Char)

/-- The loop of `NextThinkDelta`; it takes as many rounds as `newPart` is long at most. -/
def splitTags : Nat → ThinkStreamState Symbol → List Symbol →
    ThinkStreamState Symbol × List (ThinkDelta Symbol)
  | 0, state, _ => (state, [])
  | rounds + 1, state, newPart =>
    if newPart.isEmpty then (state, [])
    else if state.inThink = false then
      match GoString.index char thinkOpen newPart with
      | none =>
        ({ state with
            buffer := state.buffer ++ newPart
            lastIdx := state.lastIdx + newPart.length },
          [])
      | some idx =>
        let opened := { state with
          buffer := state.buffer ++ newPart.take idx
          lastIdx := state.lastIdx + idx + thinkOpen.length
          inThink := true }
        let (final, deltas) := splitTags rounds opened (newPart.drop (idx + thinkOpen.length))
        (final, .marker thinkOpen :: deltas)
    else
      match GoString.index char thinkClose newPart with
      -- Still inside think, consume all silently.
      | none => ({ state with lastIdx := state.lastIdx + newPart.length }, [])
      | some idx =>
        let closed := { state with
          postThinkText := newPart.take idx
          lastIdx := state.lastIdx + idx + thinkClose.length
          inThink := false }
        let (final, deltas) := splitTags rounds closed (newPart.drop (idx + thinkClose.length))
        (final, .marker thinkClose :: deltas)

/-- The state when the loop of `NextThinkDelta` begins. -/
def receive (state : ThinkStreamState Symbol) (chunk : List Symbol) : ThinkStreamState Symbol :=
  let delta := if state.lastFull.isEmpty then chunk else GoString.trimPrefix char chunk state.lastFull
  { state with
    lastModelFull := delta
    lastFull := chunk
    fullText := state.fullText ++ delta }

def nextThinkDelta (state : ThinkStreamState Symbol) (chunk : List Symbol) :
    ThinkStreamState Symbol × List (ThinkDelta Symbol) :=
  let received := receive char state chunk
  let newPart := received.fullText.drop received.lastIdx
  splitTags char newPart.length received newPart

def flushThinkBuffer (state : ThinkStreamState Symbol) :
    ThinkStreamState Symbol × List (ThinkDelta Symbol) :=
  if state.buffer.isEmpty then (state, []) else ({ state with buffer := [] }, [.text state.buffer])

/-- The deltas for all chunks and the final flush.  After a chunk the buffer is flushed as well when
`flushWhen` says so. -/
def streamFrom (flushWhen : List Char → Bool) :
    ThinkStreamState Symbol → List (List Symbol) → List (ThinkDelta Symbol)
  | state, [] => (flushThinkBuffer state).2
  | state, chunk :: chunks =>
    let (next, deltas) := nextThinkDelta char state chunk
    let markers := deltas.filter ThinkDelta.isMarker
    if flushWhen (next.buffer.map char) then
      let (flushed, texts) := flushThinkBuffer next
      markers ++ texts ++ streamFrom flushWhen flushed chunks
    else markers ++ streamFrom flushWhen next chunks

def stream (flushWhen : List Char → Bool) (chunks : List (List Symbol)) :
    List (ThinkDelta Symbol) :=
  streamFrom char flushWhen .zero chunks

/-- `len` of a string, in bytes. -/
def byteLength (text : List Char) : Nat := (text.map fun char => char.utf8Size).sum

/-- `StreamThinkTagDelta` without cancellation. -/
def streamThinkTagDelta (minTokens : Int) (chunks : List (List Char)) : List (ThinkDelta Char) :=
  stream id (fun buffer => minTokens * 4 ≤ (byteLength buffer : Int)) chunks

/-- The loop of `ExtractVisibleAnswer`: the pieces that are joined. -/
def visiblePieces : Nat → List Char → List (List Char)
  | 0, remaining => [GoString.replaceAll thinkClose [] remaining]
  | rounds + 1, remaining =>
    match GoString.index id thinkOpen remaining with
    | none => [GoString.replaceAll thinkClose [] remaining]
    | some openIdx =>
      let before := if 0 < openIdx then [remaining.take openIdx] else []
      let rest := remaining.drop (openIdx + thinkOpen.length)
      match GoString.index id thinkClose rest with
      -- Unclosed think: the rest is visible.
      | none => before ++ [rest]
      | some closeIdx => before ++ visiblePieces rounds (rest.drop (closeIdx + thinkClose.length))

def extractVisibleAnswer (raw : List Char) : List Char :=
  if raw.isEmpty then []
  else GoString.trimSpace (visiblePieces raw.length raw).flatten

end RagFlow.Ask
