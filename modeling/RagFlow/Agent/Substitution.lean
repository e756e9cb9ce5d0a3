import Mathlib
import RagFlow.Lib.Dict
import RagFlow.Lib.Json
import RagFlow.Lib.Placeholders

/-!
# Filling variables into a text

`Canvas.get_value_with_variable` and `Message._stream` go through the references of a text once.
`ComponentBase.string_format` replaces one name after the other, and so do `Message._invoke` and
`StringTransform._merge` after they have written the names without their braces.
-/

namespace RagFlow.Agent.Substitution

open RagFlow.Lib

/-- `[a-zA-Z:0-9]` -/
def isComponentChar (char : Char) : Bool := char.isAlphanum || char = ':'

/-- `[A-Za-z0-9_.-]` -/
def isOutputChar (char : Char) : Bool :=
  char.isAlphanum || char = '_' || char = '.' || char = '-'

/-- `[A-Za-z0-9_.]` -/
def isGlobalChar (char : Char) : Bool := char.isAlphanum || char = '_' || char = '.'

/-- `start[A-Za-z0-9_.]+` -/
def isGlobal (start name : List Char) : Bool :=
  let rest := name.drop start.length
  start.isPrefixOf name && !rest.isEmpty && rest.all isGlobalChar

def isReference (name : List Char) : Bool :=
  let component := name.takeWhile isComponentChar
  match name.dropWhile isComponentChar with
  | '@' :: output => !component.isEmpty && !output.isEmpty && output.all isOutputChar
  | _ => isGlobal "sys.".toList name || isGlobal "env.".toList name

/-- A match of `\{* *\{(...)\} *\}*`: what is around the braces and the name between them. -/
structure Reference where
  leading : List Char
  name : List Char
  trailing : List Char
  deriving DecidableEq

def braced (name : List Char) : List Char := '{' :: (name ++ ['}'])

def Reference.text (ref : Reference) : List Char := ref.leading ++ (braced ref.name ++ ref.trailing)

def readReference (leading text : List Char) : Option (Reference × Nat) :=
  match text.dropWhile (· ≠ '}') with
  | '}' :: rest =>
    let name := text.takeWhile (· ≠ '}')
    let closing := (rest.dropWhile (· = ' ')).takeWhile (· = '}')
    let ref : Reference := ⟨leading, name, rest.takeWhile (· = ' ') ++ closing⟩
    if isReference name then some (ref, ref.text.length) else none
  | _ => none

/-- The match at the start of a text.  Spaces before the last opening brace separate it from the
other ones; without spaces the last of all opening braces is it. -/
def matchReference (text : List Char) : Option (Reference × Nat) :=
  let braces := text.takeWhile (· = '{')
  let text := text.dropWhile (· = '{')
  let blanks := text.takeWhile (· = ' ')
  if blanks.isEmpty then
    if braces.isEmpty then none else readReference braces.dropLast text
  else
    match text.dropWhile (· = ' ') with
    | '{' :: rest => readReference (braces ++ blanks) rest
    | _ => none

def tokens (text : List Char) : List (Char ⊕ Reference) := Scan.scan matchReference 0 text

def pieces : List (Char ⊕ Reference) → List (List Char × Reference) × List Char
  | [] => ([], [])
  | .inr ref :: rest =>
    let (found, last) := pieces rest
    (([], ref) :: found, last)
  | .inl char :: rest =>
    match pieces rest with
    | ([], last) => ([], char :: last)
    | ((before, ref) :: found, last) => ((char :: before, ref) :: found, last)

/-- `re.finditer(variable_ref_patt, text)` -/
def finditer (text : List Char) : List (List Char × Reference) × List Char := pieces (tokens text)

/-- The values of the variables; `None` is written as nothing. -/
abbrev Values := List Char → Option (List Char)

def Values.text (values : Values) (name : List Char) : List Char := (values name).getD []

/-- `Canvas.get_value_with_variable`, for values that are strings or `None`. -/
def getValueWithVariable (values : Values) (value : List Char) : List Char :=
  let (found, last) := finditer value
  found.foldl (fun out piece => out ++ piece.1 ++ values.text piece.2.name) [] ++ last

/-- What the code calls outside of the repository. -/
structure Host where
  /-- `json.loads`, `none` when it raises. -/
  loads : List Char → Option Json
  /-- `json.dumps(..., ensure_ascii=False)` -/
  dumps : Json → List Char
  /-- Whether a number literal is not zero. -/
  nonzero : String → Bool
  /-- `from_string(text).render(kwargs)` of the Jinja sandbox, `none` when it raises. -/
  render : List Char → List (List Char × List Char) → Option (List Char)

def Host.truthy (host : Host) : Json → Bool
  | .null => false
  | .bool value => value
  | .number literal => host.nonzero literal
  | .string text => text ≠ ""
  | .array items => !items.isEmpty
  | .object fields => !fields.isEmpty

def isDownloadInfo : Json → Bool
  | .object fields =>
    ["doc_id", "filename", "mime_type"].all fun key => (Fields.get fields key).isSome
  | _ => false

def downloadInfoIncludesContent (host : Host) : Json → Bool
  | .object fields =>
    ((Fields.get fields "include_download_info_in_content").map host.truthy).getD false
  | _ => false

def withoutInclude : Json → Json
  | .object fields => .object (fields.filter fun field => field.1 ≠ "include_download_info_in_content")
  | value => value

def normalizeDownloadInfo : Json → Json
  | .array items => .array (items.map withoutInclude)
  | value => withoutInclude value

def extractDownloads (host : Host) (value : List Char) : List Json :=
  match host.loads value with
  | none => []
  | some (.array items) => if items.all isDownloadInfo then items else []
  | some value => if isDownloadInfo value then [value] else []

/-- `_stringify_message_value` of a string. -/
def stringifyMessageValue (host : Host) (value : List Char) : List Char :=
  let downloads := extractDownloads host value
  if downloads.isEmpty then value
  else if downloads.any (downloadInfoIncludesContent host) then
    match host.loads value with
    | none => value
    | some json => host.dumps (normalizeDownloadInfo json)
  else []

/-- What `Message._stream` yields for a reference and the text before it; a name that it has seen
is taken from the cache. -/
def streamPiece (host : Host) (values : Values)
    (state : List Char × Dict (List Char) (List Char)) (piece : List Char × Reference) :
    List Char × Dict (List Char) (List Char) :=
  match state.2.get? piece.2.name with
  | some known => (state.1 ++ piece.1 ++ known, state.2)
  | none =>
    let shown := stringifyMessageValue host (values.text piece.2.name)
    (state.1 ++ piece.1 ++ shown, state.2.upsert piece.2.name fun _ => shown)

/-- All content that `Message._stream` yields. -/
def messageStream (host : Host) (values : Values) (content : List Char) : List Char :=
  let (found, last) := finditer content
  (found.foldl (streamPiece host values) ([], Dict.empty)).1 ++ last

def stringFormat (content : List Char) (kv : List (List Char × Option (List Char))) : List Char :=
  kv.foldl (fun content entry => PyString.replace (braced entry.1) (entry.2.getD []) content) content

/-- `re.sub("[@:.]", "_", name)` -/
def underscored (name : List Char) : List Char :=
  name.map fun char => if char = '@' ∨ char = ':' ∨ char = '.' then '_' else char

/-- `Message.get_kwargs` without arguments to begin with: the script with bare names, and the values
under these.  The names come from `get_input_elements_from_text`. -/
def getKwargs (host : Host) (values : Values) (names : List (List Char)) (script : List Char) :
    List Char × Dict (List Char) (List Char) :=
  let shown name := stringifyMessageValue host (values.text name)
  (names.foldl (fun script name => PyString.replace (braced name) (underscored name) script) script,
    names.foldl (fun kwargs name => kwargs.upsert (underscored name) fun _ => shown name) Dict.empty)

def isOctal (char : Char) : Bool := '0' ≤ char && char ≤ '7'

def octalValue (digits : List Char) : Nat :=
  digits.foldl (fun value digit => 8 * value + (digit.toNat - '0'.toNat)) 0

def escapes : List (Char × Char) :=
  [('a', Char.ofNat 7), ('b', Char.ofNat 8), ('f', Char.ofNat 12), ('n', '\n'), ('r', '\r'),
    ('t', '\t'), ('v', Char.ofNat 11), ('\\', '\\')]

/-- The template of a `re.sub` for a pattern without groups, expanded for a match; `none` where
Python raises.  It takes as many rounds as the template is long at most. -/
def expandTemplate (found : List Char) : Nat → List Char → Option (List Char)
  | _, [] => some []
  | 0, _ :: _ => none
  | _ + 1, ['\\'] => none
  | rounds + 1, '\\' :: 'g' :: rest =>
    match rest with
    | '<' :: rest =>
      let group := rest.takeWhile (· ≠ '>')
      match rest.dropWhile (· ≠ '>') with
      | '>' :: rest =>
        if !group.isEmpty && group.all (· = '0') then
          (expandTemplate found rounds rest).map (found ++ ·)
        else none
      | _ => none
    | _ => none
  | rounds + 1, '\\' :: char :: rest =>
    if char = '0' then
      let octal := (rest.take 2).takeWhile isOctal
      (expandTemplate found rounds (rest.drop octal.length)).map
        (Char.ofNat (octalValue octal % 256) :: ·)
    else if char.isDigit then
      let octal := char :: rest.take 2
      if octal.length = 3 ∧ octal.all isOctal ∧ octalValue octal ≤ 255 then
        (expandTemplate found rounds (rest.drop 2)).map (Char.ofNat (octalValue octal) :: ·)
      else none
    else
      match escapes.find? fun escape => escape.1 = char with
      | some (_, meant) => (expandTemplate found rounds rest).map (meant :: ·)
      | none =>
        if char.isAlpha then none
        else (expandTemplate found rounds rest).map ('\\' :: char :: ·)
  | rounds + 1, char :: rest => (expandTemplate found rounds rest).map (char :: ·)

/-- `re.sub(name, value, content)`, where no character of the name is special. -/
def reSub (name value content : List Char) : Option (List Char) :=
  (expandTemplate name value.length value).map fun new => PyString.replace name new content

/-- `Message._invoke` without streaming. -/
def messageInvoke (host : Host) (values : Values) (names : List (List Char))
    (content : List Char) : Option (List Char) :=
  let (script, kwargs) := getKwargs host values names content
  let rendered := (host.render script kwargs.items).getD script
  kwargs.items.foldlM (fun content entry => reSub entry.1 entry.2 content) rendered

def isJinjia2 (content : List Char) : Bool :=
  (content.tails.any fun text => "\x7b%".toList.isPrefixOf text &&
    decide ("%\x7d".toList <:+: (text.drop 2).takeWhile (· ≠ '\n'))) ||
  decide ("\x7b\x7b".toList <:+: content) || decide ("\x7d\x7d".toList <:+: content)

def stringTransformMerge (host : Host) (values : Values) (names : List (List Char))
    (script : List Char) : List Char :=
  let (script, kwargs) := getKwargs host values names script
  let rendered :=
    if isJinjia2 script then (host.render script kwargs.items).getD script else script
  kwargs.items.foldl (fun script entry => PyString.replace entry.1 entry.2 script) rendered

theorem readReference_spec {leading text : List Char} {ref : Reference} {length : Nat}
    (found : readReference leading text = some (ref, length)) :
    length = ref.text.length ∧ isReference ref.name = true ∧
      ∃ rest, leading ++ '{' :: text = ref.text ++ rest := by
  have split := @List.takeWhile_append_dropWhile _ (· ≠ '}') text
  unfold readReference at found
  split at found
  · next rest behind =>
      dsimp only at found
      split_ifs at found with isName
      obtain ⟨rfl, rfl⟩ := Prod.mk.inj (Option.some.inj found)
      refine ⟨rfl, isName, (rest.dropWhile (· = ' ')).dropWhile (· = '}'), ?_⟩
      have blanks := @List.takeWhile_append_dropWhile _ (· = ' ') rest
      have closing := @List.takeWhile_append_dropWhile _ (· = '}') (rest.dropWhile (· = ' '))
      rw [behind] at split
      conv_lhs => rw [← split, ← blanks, ← closing]
      simp [Reference.text, braced]
  · contradiction

theorem matchReference_spec {text : List Char} {ref : Reference} {length : Nat}
    (found : matchReference text = some (ref, length)) :
    length = ref.text.length ∧ isReference ref.name = true ∧ ∃ rest, text = ref.text ++ rest := by
  have braces := @List.takeWhile_append_dropWhile _ (· = '{') text
  have blanks := @List.takeWhile_append_dropWhile _ (· = ' ') (text.dropWhile (· = '{'))
  unfold matchReference at found
  dsimp only at found
  split_ifs at found with noBlanks noBraces
  · obtain ⟨isLength, isName, rest, whole⟩ := readReference_spec found
    refine ⟨isLength, isName, rest, ?_⟩
    have nonempty : text.takeWhile (· = '{') ≠ [] := by simpa using noBraces
    have last : (text.takeWhile (· = '{')).getLast nonempty = '{' := by
      simpa using List.mem_takeWhile_imp (List.getLast_mem nonempty)
    have opened := List.dropLast_append_getLast nonempty
    rw [last] at opened
    rw [← whole, List.append_cons, opened, braces]
  · split at found
    · next rest behind =>
        obtain ⟨isLength, isName, after, whole⟩ := readReference_spec found
        refine ⟨isLength, isName, after, ?_⟩
        rw [← whole, ← behind, List.append_assoc, blanks, braces]
    · contradiction

theorem reads_matchReference : Scan.Reads matchReference Reference.text where
  begins _ _ _ found := ⟨(matchReference_spec found).1, (matchReference_spec found).2.2⟩
  nonempty _ ref _ _ := by simp [Reference.text, braced]

theorem foldl_pieces (write : Reference → List Char) (found : List (Char ⊕ Reference))
    (out : List Char) :
    (pieces found).1.foldl (fun out piece => out ++ piece.1 ++ write piece.2) out ++
      (pieces found).2 = out ++ Scan.replace write found := by
  induction found generalizing out with
  | nil => simp [pieces]
  | cons token rest ih =>
    cases token with
    | inr ref =>
      rw [Scan.replace_inr, ← List.append_assoc, ← ih (out ++ write ref)]
      simp [pieces]
    | inl char =>
      have later := ih (out ++ [char])
      rw [Scan.replace_inl, List.append_cons, ← later]
      rw [pieces]
      generalize pieces rest = result
      obtain ⟨found, last⟩ := result
      cases found with
      | nil => simp
      | cons piece found => simp

theorem getValueWithVariable_eq (values : Values) (text : List Char) :
    getValueWithVariable values text =
      Scan.replace (fun ref => values.text ref.name) (tokens text) := by
  have filled := foldl_pieces (fun ref => values.text ref.name) (tokens text) []
  exact filled

theorem foldl_streamPiece (host : Host) (values : Values) (found : List (List Char × Reference))
    {out : List Char} {cache : Dict (List Char) (List Char)}
    (holds : ∀ name shown, cache.get? name = some shown →
      shown = stringifyMessageValue host (values.text name)) :
    (found.foldl (streamPiece host values) (out, cache)).1 = found.foldl (fun out piece =>
      out ++ piece.1 ++ stringifyMessageValue host (values.text piece.2.name)) out := by
  induction found generalizing out cache with
  | nil => rfl
  | cons piece found ih =>
    rw [List.foldl_cons, List.foldl_cons, streamPiece]
    cases lookup : cache.get? piece.2.name with
    | some known =>
      rw [← holds piece.2.name known lookup]
      exact ih holds
    | none =>
      apply ih
      intro name shown known
      rw [Dict.get?_upsert] at known
      split_ifs at known with same
      · rw [same]
        exact (Option.some.inj known).symm
      · exact holds name shown known

theorem messageStream_eq (host : Host) (values : Values) (content : List Char) :
    messageStream host values content = Scan.replace
      (fun ref => stringifyMessageValue host (values.text ref.name)) (tokens content) := by
  have filled := foldl_pieces (fun ref => stringifyMessageValue host (values.text ref.name))
    (tokens content) []
  rw [List.nil_append] at filled
  rw [← filled]
  exact congrArg (· ++ (pieces (tokens content)).2)
    (foldl_streamPiece host values (pieces (tokens content)).1 (by simp))

def template (text : List Char) : Placeholders.Template (List Char) :=
  (tokens text).flatMap fun token =>
    match token with
    | .inl char => [.inl char]
    | .inr ref => ref.leading.map .inl ++ .inr ref.name :: ref.trailing.map .inl

def Tight (text : List Char) : Prop :=
  ∀ ref ∈ Scan.found (tokens text), ref.leading = [] ∧ ref.trailing = []

instance (text : List Char) : Decidable (Tight text) :=
  inferInstanceAs
    (Decidable (∀ ref ∈ Scan.found (tokens text), ref.leading = [] ∧ ref.trailing = []))

theorem write_map_inl (form : List Char → List Char) (chars : List Char)
    (rest : Placeholders.Template (List Char)) :
    Placeholders.write form (chars.map .inl ++ rest) = chars ++ Placeholders.write form rest := by
  induction chars with
  | nil => rfl
  | cons char chars ih => simp [ih]

theorem write_template (form : List Char → List Char) (text : List Char) :
    Placeholders.write form (template text) =
      Scan.replace (fun ref => ref.leading ++ (form ref.name ++ ref.trailing)) (tokens text) := by
  unfold template
  induction tokens text with
  | nil => rfl
  | cons token rest ih =>
    cases token with
    | inl char =>
      rw [List.flatMap_cons, List.singleton_append, Placeholders.write_inl, Scan.replace_inl,
        ih]
    | inr ref =>
      rw [List.flatMap_cons, List.append_assoc, write_map_inl, List.cons_append,
        Placeholders.write_inr, write_map_inl, Scan.replace_inr, ih]
      simp

theorem write_braced_template (text : List Char) :
    Placeholders.write braced (template text) = text := by
  rw [write_template]
  exact reads_matchReference.replace_scan text

theorem mem_template {text name : List Char} (membership : .inr name ∈ template text) :
    ∃ ref ∈ Scan.found (tokens text), ref.name = name := by
  obtain ⟨token, present, inToken⟩ := List.mem_flatMap.mp membership
  cases token with
  | inl char => simp at inToken
  | inr ref =>
    refine ⟨ref, List.mem_filterMap.mpr ⟨.inr ref, present, rfl⟩, ?_⟩
    simpa [eq_comm] using inToken

theorem length_replace_le (form : List Char → List Char) (found : List (Char ⊕ Reference)) :
    (Scan.replace (fun ref => form ref.name) found).length ≤
      (Scan.replace (fun ref => ref.leading ++ (form ref.name ++ ref.trailing)) found).length := by
  induction found with
  | nil => exact le_rfl
  | cons token rest ih =>
    cases token with
    | inl char => simpa using ih
    | inr ref =>
      simp only [Scan.replace_inr, List.length_append]
      omega

theorem write_template_eq_iff (values : Values) (text : List Char) :
    Placeholders.write values.text (template text) = getValueWithVariable values text ↔
      Tight text := by
  rw [write_template, getValueWithVariable_eq]
  unfold Tight
  induction tokens text with
  | nil => simp
  | cons token rest ih =>
    cases token with
    | inl char => simpa using ih
    | inr ref =>
      rw [Scan.replace_inr, Scan.replace_inr, Scan.found_inr, List.forall_mem_cons,
        ← ih]
      constructor
      · intro same
        have shorter := length_replace_le values.text rest
        have lengths := congrArg List.length same
        simp only [List.length_append] at lengths
        have noLeading : ref.leading = [] := List.length_eq_zero_iff.mp (by omega)
        have noTrailing : ref.trailing = [] := List.length_eq_zero_iff.mp (by omega)
        rw [noLeading, noTrailing, List.nil_append, List.append_nil] at same
        exact ⟨⟨noLeading, noTrailing⟩, List.append_cancel_left same⟩
      · rintro ⟨⟨noLeading, noTrailing⟩, same⟩
        rw [noLeading, noTrailing, List.nil_append, List.append_nil, same]

def isVerbatim : List Char → Bool
  | [] => true
  | ['\\'] => false
  | '\\' :: char :: rest =>
    !char.isAlphanum && decide (char ≠ '\\') && isVerbatim rest
  | _ :: rest => isVerbatim rest

theorem escapes_letters : ∀ escape ∈ escapes, escape.1.isAlpha = true ∨ escape.1 = '\\' := by
  decide

theorem expandTemplate_of_verbatim {found : List Char} {rounds : Nat} {value : List Char}
    (enough : value.length ≤ rounds) (verbatim : isVerbatim value = true) :
    expandTemplate found rounds value = some value := by
  induction rounds generalizing value with
  | zero =>
    obtain rfl : value = [] := List.length_eq_zero_iff.mp (Nat.le_zero.mp enough)
    rfl
  | succ rounds ih =>
    unfold isVerbatim at verbatim
    split at verbatim
    · rfl
    · contradiction
    · next char rest =>
        simp only [Bool.and_eq_true, Bool.not_eq_true', decide_eq_true_eq] at verbatim
        obtain ⟨⟨notAlphanum, notBackslash⟩, verbatimLater⟩ := verbatim
        simp only [List.length_cons] at enough
        have later := ih (by omega : rest.length ≤ rounds) verbatimLater
        obtain ⟨notLetter, notDigit⟩ : char.isAlpha = false ∧ char.isDigit = false := by
          simpa only [Char.isAlphanum, Bool.or_eq_false_iff] using notAlphanum
        have notZero : char ≠ '0' := by
          rintro rfl
          exact absurd notDigit (by decide)
        have noEscape : escapes.find? (fun escape => escape.1 = char) = none := by
          apply List.find?_eq_none.mpr
          intro escape membership same
          rw [← of_decide_eq_true same] at notLetter notBackslash
          rcases escapes_letters escape membership with isLetter | isBackslash
          · rw [isLetter] at notLetter
            contradiction
          · exact notBackslash isBackslash
        rw [expandTemplate, noEscape, if_neg notZero, later]
        · simp [notDigit, notLetter]
        · rintro rfl
          exact absurd notLetter (by decide)
    · next char rest isNotLast isNotEscape =>
        have later := ih (by simpa using enough : rest.length ≤ rounds) verbatim
        rw [expandTemplate, later]
        · rfl
        · exact fun isBackslash isNil => isNotLast isBackslash isNil
        · exact fun after isBackslash isEscape => isNotEscape 'g' after isBackslash isEscape
        · exact fun next after isBackslash isEscape => isNotEscape next after isBackslash isEscape

theorem reSub_of_verbatim {name value content : List Char} (verbatim : isVerbatim value = true) :
    reSub name value content = some (PyString.replace name value content) := by
  rw [reSub, expandTemplate_of_verbatim le_rfl verbatim]
  rfl

/-- A text that Jinja leaves as it is: nothing begins an expression, a statement or a comment, the
lines end as Jinja ends them, and the last one is not ended. -/
structure PlainText (text : List Char) : Prop where
  noExpression : ¬ "\x7b\x7b".toList <:+: text
  noStatement : ¬ "\x7b%".toList <:+: text
  noComment : ¬ "\x7b#".toList <:+: text
  noReturn : '\r' ∉ text
  notEnded : text.getLast? ≠ some '\n'

def RendersPlain (host : Host) : Prop :=
  ∀ text kwargs, PlainText text → host.render text kwargs = some text

def bareScript (text : List Char) : List Char := Placeholders.write underscored (template text)

/-- Nothing but the references is taken for a reference, at any step. -/
structure Fit (host : Host) (values : Values) (names : List (List Char)) (text : List Char) :
    Prop where
  /-- `string_format` meets `{name}` only where the text has it. -/
  braces : Placeholders.Undisturbed braced values.text (template text) braced names
  /-- So does `get_kwargs`. -/
  bare : Placeholders.Undisturbed braced underscored (template text) braced names
  /-- The bare names stand only where the references were. -/
  filled : Placeholders.Undisturbed underscored values.text (template text) underscored names
  /-- No two names become the same bare name. -/
  distinct : (names.map underscored).Nodup
  verbatim : ∀ name ∈ names, isVerbatim (values.text name) = true
  /-- No value is the description of a download. -/
  noDownloads : ∀ name ∈ names, extractDownloads host (values.text name) = []
  plain : PlainText (bareScript text)

section Agree

variable {host : Host} {values : Values} {names : List (List Char)} {text : List Char}

theorem replaceEach_template {pattern value : List Char → List Char} (nodup : names.Nodup)
    (nonempty : ∀ name ∈ names, pattern name ≠ [])
    (covered : ∀ ref ∈ Scan.found (tokens text), ref.name ∈ names)
    (undisturbed : Placeholders.Undisturbed pattern value (template text) pattern names) :
    Placeholders.replaceEach pattern value names (Placeholders.write pattern (template text)) =
      Placeholders.write value (template text) := by
  rw [Placeholders.replaceEach_write nodup nonempty (fun name _ => rfl) undisturbed]
  apply Placeholders.write_congr
  intro name membership
  obtain ⟨ref, found, rfl⟩ := mem_template membership
  rw [if_pos (covered ref found)]

theorem braced_ne_nil : ∀ name ∈ names, braced name ≠ [] := by simp [braced]

theorem underscored_ne_nil (references : ∀ name ∈ names, isReference name = true) :
    ∀ name ∈ names, underscored name ≠ [] := by
  intro name membership empty
  have isName := references name membership
  rw [List.map_eq_nil_iff.mp empty] at isName
  exact absurd isName (by decide)

theorem stringFormat_eq (nodup : names.Nodup)
    (covered : ∀ ref ∈ Scan.found (tokens text), ref.name ∈ names)
    (fit : Fit host values names text) :
    stringFormat text (names.map fun name => (name, values name)) =
      Placeholders.write values.text (template text) := by
  rw [← replaceEach_template nodup braced_ne_nil covered fit.braces, write_braced_template,
    stringFormat, Placeholders.replaceEach, List.foldl_map]
  rfl

theorem getKwargs_eq (nodup : names.Nodup)
    (covered : ∀ ref ∈ Scan.found (tokens text), ref.name ∈ names)
    (fit : Fit host values names text) :
    (getKwargs host values names text).1 = bareScript text ∧
      (getKwargs host values names text).2.items =
        names.map fun name => (underscored name, values.text name) := by
  constructor
  · rw [bareScript, ← replaceEach_template nodup braced_ne_nil covered fit.bare,
      write_braced_template]
    rfl
  · have shown : ∀ name ∈ names, stringifyMessageValue host (values.text name) = values.text name :=
      fun name membership => by simp [stringifyMessageValue, fit.noDownloads name membership]
    have items := @Dict.items_foldl_upsert_of_fresh (List Char) (List Char) (List Char) _
      (fun name _ => stringifyMessageValue host (values.text name))
      (names.map fun name => (underscored name, name)) Dict.empty
      (by simpa [Function.comp_def] using fit.distinct) (by simp)
    rw [List.foldl_map, List.map_map] at items
    refine items.trans (List.map_congr_left fun name membership => ?_)
    exact congrArg (Prod.mk (underscored name)) (shown name membership)

theorem messageInvoke_eq (rendersPlain : RendersPlain host) (nodup : names.Nodup)
    (references : ∀ name ∈ names, isReference name = true)
    (covered : ∀ ref ∈ Scan.found (tokens text), ref.name ∈ names)
    (fit : Fit host values names text) :
    messageInvoke host values names text =
      some (Placeholders.write values.text (template text)) := by
  obtain ⟨script, items⟩ := getKwargs_eq nodup covered fit
  have verbatim : ∀ (content : List Char) (rest : List (List Char)), (∀ name ∈ rest, name ∈ names) →
      rest.foldlM (fun content name => reSub (underscored name) (values.text name) content) content =
        some (Placeholders.replaceEach underscored values.text rest content) := by
    intro content rest known
    induction rest generalizing content with
    | nil => rfl
    | cons name rest ih =>
      rw [List.foldlM_cons, reSub_of_verbatim (fit.verbatim name (known name (by simp)))]
      exact ih _ fun other membership => known other (by simp [membership])
  rw [← replaceEach_template nodup (underscored_ne_nil references) covered fit.filled,
    ← verbatim _ names fun name membership => membership]
  unfold messageInvoke
  simp only [script, items, rendersPlain _ _ fit.plain, Option.getD_some]
  rw [List.foldlM_map]
  rfl

theorem stringTransformMerge_eq (rendersPlain : RendersPlain host) (nodup : names.Nodup)
    (references : ∀ name ∈ names, isReference name = true)
    (covered : ∀ ref ∈ Scan.found (tokens text), ref.name ∈ names)
    (fit : Fit host values names text) :
    stringTransformMerge host values names text =
      Placeholders.write values.text (template text) := by
  obtain ⟨script, items⟩ := getKwargs_eq nodup covered fit
  rw [← replaceEach_template nodup (underscored_ne_nil references) covered fit.filled]
  unfold stringTransformMerge
  simp only [script, items, rendersPlain _ _ fit.plain, Option.getD_some, ite_self]
  rw [List.foldl_map]
  rfl

theorem messageStream_eq_getValueWithVariable
    (covered : ∀ ref ∈ Scan.found (tokens text), ref.name ∈ names)
    (noDownloads : ∀ name ∈ names, extractDownloads host (values.text name) = []) :
    messageStream host values text = getValueWithVariable values text := by
  rw [messageStream_eq, getValueWithVariable_eq]
  apply Scan.replace_congr
  intro ref found
  simp [stringifyMessageValue, noDownloads ref.name (covered ref found)]

end Agree

/-- Without anything else that looks like a reference, one name after the other gives what one pass
gives, exactly for the texts in which no brace or space stands directly around a reference; a stream
always does. -/
theorem agree_iff (host : Host) (rendersPlain : RendersPlain host) (values : Values)
    (names : List (List Char)) (text : List Char) (nodup : names.Nodup)
    (references : ∀ name ∈ names, isReference name = true)
    (covered : ∀ ref ∈ Scan.found (tokens text), ref.name ∈ names)
    (fit : Fit host values names text) :
    ((stringFormat text (names.map fun name => (name, values name)) =
        getValueWithVariable values text ∧
      messageInvoke host values names text = some (getValueWithVariable values text) ∧
      stringTransformMerge host values names text = getValueWithVariable values text) ↔
        Tight text) ∧
    messageStream host values text = getValueWithVariable values text := by
  refine ⟨?_, messageStream_eq_getValueWithVariable covered fit.noDownloads⟩
  rw [stringFormat_eq nodup covered fit, messageInvoke_eq rendersPlain nodup references covered fit,
    stringTransformMerge_eq rendersPlain nodup references covered fit, Option.some.injEq,
    write_template_eq_iff]
  exact ⟨fun all => all.1, fun tight => ⟨tight, tight, tight⟩⟩

/-- A host on texts without JSON and without anything for Jinja. -/
def plainHost : Host where
  loads _ := none
  dumps _ := []
  nonzero _ := false
  render text _ := some text

def valuesOf (entries : List (String × String)) : Values := fun name =>
  (entries.find? fun entry => entry.1.toList = name).map fun entry => entry.2.toList

theorem agree_greeting :
    stringFormat "Hi:{a@b},{sys.query}.".toList
        [("a@b".toList, some "(x)".toList), ("sys.query".toList, some "{1}".toList)] =
      getValueWithVariable (valuesOf [("a@b", "(x)"), ("sys.query", "{1}")])
        "Hi:{a@b},{sys.query}.".toList := by
  have rendersPlain : RendersPlain plainHost := fun text kwargs _ => rfl
  have fit : Fit plainHost (valuesOf [("a@b", "(x)"), ("sys.query", "{1}")])
      ["a@b".toList, "sys.query".toList] "Hi:{a@b},{sys.query}.".toList := by
    refine ⟨by decide, by decide, by decide, by decide, by decide, fun name _ => rfl, ?_⟩
    constructor <;> decide
  have agree := agree_iff plainHost rendersPlain _ _ _ (by decide) (by decide) (by decide) fit
  exact (agree.1.mpr (by decide)).1

/-- A value that looks like another reference is filled again; a name that another one begins with
is taken for it; a backslash makes `re.sub` fail; and a space before a reference is lost in the one
pass only. -/
theorem not_agree :
    stringFormat "{a@b}{c@d}".toList [("a@b".toList, some "{c@d}".toList),
        ("c@d".toList, some "x".toList)] ≠
      getValueWithVariable (valuesOf [("a@b", "{c@d}"), ("c@d", "x")]) "{a@b}{c@d}".toList ∧
    stringTransformMerge plainHost (valuesOf [("a@b", "1"), ("a@bc", "2")])
        ["a@b".toList, "a@bc".toList] "{a@b}{a@bc}".toList ≠
      getValueWithVariable (valuesOf [("a@b", "1"), ("a@bc", "2")]) "{a@b}{a@bc}".toList ∧
    messageInvoke plainHost (valuesOf [("a@b", "\\d")]) ["a@b".toList] "{a@b}".toList = none ∧
    stringFormat "Hi {a@b}".toList [("a@b".toList, some "x".toList)] ≠
      getValueWithVariable (valuesOf [("a@b", "x")]) "Hi {a@b}".toList := by
  refine ⟨by decide, by decide, by decide, by decide⟩

end RagFlow.Agent.Substitution
