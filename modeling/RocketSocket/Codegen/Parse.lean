import Mathlib.Data.List.Infix
import Mathlib.Data.List.Sort
import RocketSocket.Lib.Str

/-!
# The codegen parser

`parse.rs` of `rocketsocket-codegen`: the narrow reader of `interface StreamerEvents` that the
event catalog is generated from.  A `str` is the list of its bytes and an offset counts bytes,
as in the source; slicing out of range or inside a character is a panic, and so is an
arithmetic overflow.  The loops of the source take fuel here, and a loop that ran out of it
hangs.

## Main definitions

* `Text`, `Reading` — a `str`, and what a call comes to.
* `Catalog`, `Stream`, `Event`, `KeyPattern`, `ArgsSpec` — what is read.
* `slice`, `skipString`, `balanced`, `splitTopLevel`, `trimRange` — the lexical helpers.
* `stripComments` — blanks out comments.
* `parseKey`, `parseArgs`, `parseEntry`, `parseEntries`, `parse` — the parser.
-/

namespace RocketSocket

namespace Codegen

open Machine Utf8

/-- A `str`, as its bytes. -/
abbrev Text := List UInt8

/-- The bytes of a string. -/
def text (s : String) : Text := encode s.toList

/-! ### Bytes

The bytes the scanners look for, each under the name of its character. -/

abbrev newline : UInt8 := 10
abbrev doubleQuote : UInt8 := 34
abbrev dollar : UInt8 := 36
abbrev singleQuote : UInt8 := 39
abbrev parenOpen : UInt8 := 40
abbrev parenClose : UInt8 := 41
abbrev star : UInt8 := 42
abbrev comma : UInt8 := 44
abbrev slash : UInt8 := 47
abbrev colon : UInt8 := 58
abbrev semicolon : UInt8 := 59
abbrev less : UInt8 := 60
abbrev equals : UInt8 := 61
abbrev greater : UInt8 := 62
abbrev question : UInt8 := 63
abbrev bracketOpen : UInt8 := 91
abbrev backslash : UInt8 := 92
abbrev bracketClose : UInt8 := 93
abbrev underscore : UInt8 := 95
abbrev backtick : UInt8 := 96
abbrev braceOpen : UInt8 := 123
abbrev bar : UInt8 := 124
abbrev braceClose : UInt8 := 125

/-- `is_quote`. -/
def isQuote (b : UInt8) : Bool := b == singleQuote || b == doubleQuote || b == backtick

/-- `is_ascii_whitespace`. -/
def isWs (b : UInt8) : Bool := b == 9 || b == 10 || b == 12 || b == 13 || b == 32

/-- `is_ascii_alphanumeric`. -/
def isAlphanumeric (b : UInt8) : Bool :=
  (48 ≤ b && b ≤ 57) || (65 ≤ b && b ≤ 90) || (97 ≤ b && b ≤ 122)

/-! ### What a call comes to -/

/-- A shape the parser was not written to understand. -/
structure ParseError where
  /-- Byte offset into the original source. -/
  offset : ℕ
  /-- 1-based line number. -/
  line : ℕ
  message : Text
  /-- The offending source text, truncated. -/
  context : Text
  deriving DecidableEq, Repr

/-- What a call comes to. -/
inductive Reading (α : Type) where
  | ok (a : α)
  | error (e : ParseError)
  | panic
  | hang
  deriving DecidableEq, Repr

namespace Reading

variable {α β : Type}

/-- The next call is made if this one is `ok`. -/
def bind (x : Reading α) (f : α → Reading β) : Reading β :=
  match x with
  | ok a => f a
  | error e => error e
  | panic => panic
  | hang => hang

instance : Monad Reading where
  pure := ok
  bind := bind

/-- The call returned, with a result or an error. -/
def Returns : Reading α → Prop
  | ok _ | error _ => True
  | panic | hang => False

end Reading

/-! ### Slices and errors -/

/-- `src[start..stop]`. -/
def slice (src : Text) (start stop : ℕ) : Reading Text :=
  if start ≤ stop ∧ stop ≤ src.length ∧ isBoundary src start ∧ isBoundary src stop then
    .ok ((src.drop start).take (stop - start))
  else .panic

/-- `src[start..]`. -/
def sliceFrom (src : Text) (start : ℕ) : Reading Text := slice src start src.length

/-- `bytes[i]`. -/
def byteAt (src : Text) (i : ℕ) : Reading UInt8 :=
  match src[i]? with
  | some b => .ok b
  | none => .panic

/-- `bytes[start..stop]`. -/
def byteSlice (src : Text) (start stop : ℕ) : Reading Text :=
  if start ≤ stop ∧ stop ≤ src.length then .ok ((src.drop start).take (stop - start))
  else .panic

/-- Collapses whitespace runs; `space` says that one has just been read. -/
def normaliseLoop (space : Bool) (out : Text) : Text → Text
  | [] => out
  | b :: rest =>
    if isWs b then normaliseLoop (!out.isEmpty) out rest
    else normaliseLoop false (if space then out ++ [32, b] else out ++ [b]) rest

/-- Collapses whitespace runs so a multi-line type reads as one line. -/
def normalise (t : Text) : Text := normaliseLoop false [] t

/-- Cuts a text that is longer than `max`. -/
def truncate (t : Text) (max : ℕ) : Reading Text :=
  if t.length ≤ max then .ok t
  else do
    let front ← slice t 0 (Str.floorBoundary t max)
    return front ++ text "…"

/-- Fails with an error at an offset. -/
def err {α : Type} (src : Text) (offset : ℕ) (message context : Text) : Reading α := do
  let before ← slice src 0 (min offset src.length)
  let context ← truncate (normalise context) 120
  .error { offset := offset, line := before.count newline + 1, message := message,
           context := context }

/-- Fails with an error about the text of a range. -/
def errAt {α : Type} (src : Text) (offset : ℕ) (message : String) (start stop : ℕ) :
    Reading α := do
  let context ← slice src start stop
  err src offset (text message) context

/-! ### Lexical helpers -/

/-- The first place a text stands in another. -/
def find (needle : Text) : Text → Option ℕ
  | [] => if needle.isEmpty then some 0 else none
  | b :: rest => if needle.isPrefixOf (b :: rest) then some 0 else (find needle rest).map (· + 1)

/-- The next character boundary strictly after `i`, clamped to the length. -/
def nextBoundary (src : Text) (i : ℕ) : ℕ :=
  if src.length ≤ i then src.length
  else i + 1 + ((src.drop (i + 1)).takeWhile isContinuation).length

/-- Index just past the string that `i` is inside of. -/
def skipLoop (src : Text) (quote : UInt8) : ℕ → ℕ → ℕ
  | 0, i => i
  | fuel + 1, i =>
    match src[i]? with
    | none => i
    | some c =>
      -- An escape is stepped over with the whole character it escapes.
      if c = backslash then skipLoop src quote fuel (nextBoundary src (i + 1))
      else if c = quote then i + 1
      else skipLoop src quote fuel (i + 1)

/-- Index just past the string starting at `start`. -/
def skipString (src : Text) (start : ℕ) : Reading ℕ := do
  let quote ← byteAt src start
  return skipLoop src quote src.length (start + 1)

/-- The first index from `pos` on that holds no whitespace. -/
def skipWs (src : Text) (pos : ℕ) : ℕ := pos + ((src.drop pos).takeWhile isWs).length

/-- A range without the whitespace at its ends. -/
def trimRange (src : Text) (start stop : ℕ) : ℕ × ℕ :=
  let part := (src.drop start).take (stop - start)
  let front := (part.takeWhile isWs).length
  let back := ((part.drop front).reverse.takeWhile isWs).length
  (start + front, stop - back)

/-- Maps one comment byte to its replacement. -/
def blank (b : UInt8) : UInt8 := if b = newline ∨ ¬ b < 128 then b else 32

/-- The end of the line that `i` is on. -/
def lineEnd (src : Text) (i : ℕ) : ℕ := i + ((src.drop i).takeWhile fun b => b ≠ newline).length

/-- The loop of `stripComments`. -/
def stripLoop (src : Text) : ℕ → ℕ → Text → Reading Text
  | 0, _, _ => .hang
  | fuel + 1, i, out =>
    match src[i]? with
    | none => .ok out
    | some c =>
      if isQuote c then do
        let after ← skipString src i
        let literal ← byteSlice src i after
        stripLoop src fuel after (out ++ literal)
      else if c = slash ∧ src[i + 1]? = some slash then do
        let comment ← byteSlice src i (lineEnd src i)
        stripLoop src fuel (lineEnd src i) (out ++ comment.map blank)
      else if c = slash ∧ src[i + 1]? = some star then do
        let rest ← sliceFrom src (i + 2)
        let stop := ((find [star, slash] rest).map fun p => i + 2 + p + 2).getD src.length
        let comment ← byteSlice src i stop
        stripLoop src fuel stop (out ++ comment.map blank)
      else stripLoop src fuel (i + 1) (out ++ [c])

/-- `String::from_utf8(out).expect(..)`. -/
def fromUtf8 (out : Text) : Reading Text :=
  if (ByteArray.mk out.toArray).validateUTF8 then .ok out else .panic

/-- Blanks out `//` and `/* */` comments, preserving every byte offset. -/
def stripComments (src : Text) : Reading Text := do
  let out ← stripLoop src (src.length + 1) 0 []
  fromUtf8 out

/-- The loop of `balanced`: `depth` delimiters are open. -/
def balancedLoop (src : Text) (openAt : ℕ) (opens closes : UInt8) : ℕ → ℕ → ℕ → Reading ℕ
  | 0, _, _ => .hang
  | fuel + 1, i, depth =>
    match src[i]? with
    | none => do
      let context ← sliceFrom src openAt
      err src openAt (text "unbalanced `" ++ [opens] ++ text "`") context
    | some c =>
      if isQuote c then do
        let after ← skipString src i
        balancedLoop src openAt opens closes fuel after depth
      else if c = opens then balancedLoop src openAt opens closes fuel (i + 1) (depth + 1)
      else if c = closes then
        -- `depth -= 1` on a `usize`.
        if depth = 0 then .panic
        else if depth = 1 then .ok i
        else balancedLoop src openAt opens closes fuel (i + 1) (depth - 1)
      else balancedLoop src openAt opens closes fuel (i + 1) depth

/-- Index of the delimiter matching the one at `openAt`, skipping strings and nesting. -/
def balanced (src : Text) (openAt : ℕ) (opens closes : UInt8) : Reading ℕ := do
  let c ← byteAt src openAt
  if c ≠ opens then .panic
  else balancedLoop src openAt opens closes (src.length + 1) openAt 0

/-- The greatest `i32`. -/
def maxI32 : ℤ := 2147483647

/-- The state of the loop of `splitTopLevel`. -/
structure Split where
  i : ℕ
  start : ℕ
  parts : List (ℕ × ℕ) := []
  depth : ℤ := 0
  angle : ℤ := 0
  prev : UInt8 := 32

/-- An opening bracket, brace or parenthesis. -/
def isOpener (b : UInt8) : Bool := b == braceOpen || b == bracketOpen || b == parenOpen

/-- A closing bracket, brace or parenthesis. -/
def isCloser (b : UInt8) : Bool := b == braceClose || b == bracketClose || b == parenClose

/-- A `<` after such a byte opens a generic argument list. -/
def isTypeEnd (b : UInt8) : Bool := isAlphanumeric b || b == underscore || b == greater

/-- What one byte does to the counters and the parts. -/
def Split.count (s : Split) (seps : List UInt8) (c : UInt8) : Reading Split :=
  if isOpener c then
    if s.depth = maxI32 then .panic else .ok { s with depth := s.depth + 1 }
  else if isCloser c then .ok { s with depth := s.depth - 1 }
  else if c = less ∧ isTypeEnd s.prev then
    if s.angle = maxI32 then .panic else .ok { s with angle := s.angle + 1 }
  else if c = greater ∧ s.angle > 0 ∧ s.prev ≠ equals then
    .ok { s with angle := s.angle - 1 }
  else if s.depth = 0 ∧ s.angle = 0 ∧ c ∈ seps then
    .ok { s with parts := s.parts ++ [(s.start, s.i)], start := s.i + 1 }
  else .ok s

/-- The loop of `splitTopLevel`. -/
def splitLoop (src : Text) (start stop : ℕ) (seps : List UInt8) :
    ℕ → Split → Reading (List (ℕ × ℕ))
  | 0, _ => .hang
  | fuel + 1, s =>
    if s.i < stop then do
      let c ← byteAt src s.i
      if isQuote c then
        let after ← skipString src s.i
        splitLoop src start stop seps fuel { s with i := after, prev := singleQuote }
      else
        let s' ← s.count seps c
        if s'.depth < 0 then errAt src s.i "unbalanced closing delimiter" start stop
        else
          let prev := if isWs c then s.prev else c
          splitLoop src start stop seps fuel { s' with i := s.i + 1, prev := prev }
    else if s.depth ≠ 0 then errAt src start "unbalanced delimiter" start stop
    else .ok (s.parts ++ [(s.start, stop)])

/-- Splits `start..stop` on any of `seps` occurring at nesting depth zero. -/
def splitTopLevel (src : Text) (start stop : ℕ) (seps : List UInt8) :
    Reading (List (ℕ × ℕ)) :=
  splitLoop src start stop seps (src.length + 1) { i := start, start := start }

/-- Offset of the first depth-zero occurrence of any of `seps`. -/
def findTopLevel (src : Text) (start stop : ℕ) (seps : List UInt8) : Reading (Option ℕ) := do
  let parts ← splitTopLevel src start stop seps
  match parts with
  | first :: _ :: _ => return some first.2
  | _ => return none

/-- The text begins with `front`: what is after it. -/
def stripFront (front t : Text) : Option Text :=
  if front.isPrefixOf t then some (t.drop front.length) else none

/-- The text ends with `back`: what is before it. -/
def stripBack (back t : Text) : Option Text :=
  if back.isSuffixOf t then some (t.take (t.length - back.length)) else none

/-- The text has `part` in it. -/
def hasPart (t part : Text) : Bool := (find part t).isSome

/-- What one pair of quotes encloses. -/
def stripQuotes (t : Text) (quote : UInt8) : Option Text := do
  let inner ← (stripFront [quote] t).bind (stripBack [quote])
  -- Guard against `'a' | 'b'`, which starts and ends with a quote but is not one string.
  if inner.contains quote then none else some inner

/-- The encodings of the characters that have the Unicode property `White_Space`. -/
def whiteSpace : List Text :=
  (([9, 10, 11, 12, 13, 32, 0x85, 0xa0, 0x1680, 0x2000, 0x2001, 0x2002, 0x2003, 0x2004, 0x2005,
    0x2006, 0x2007, 0x2008, 0x2009, 0x200a, 0x2028, 0x2029, 0x202f, 0x205f, 0x3000] :
    List ℕ).map Char.ofNat).map String.utf8EncodeChar

/-- Takes white space off one end as long as there is some. -/
def trimEnd (strip : Text → Text → Option Text) : ℕ → Text → Text
  | 0, t => t
  | fuel + 1, t =>
    match whiteSpace.findSome? fun c => strip c t with
    | some rest => trimEnd strip fuel rest
    | none => t

/-- `str::trim`. -/
def trim (t : Text) : Text :=
  trimEnd stripBack t.length (trimEnd stripFront t.length t)

/-! ### The catalog -/

/-- The shape of an event key. -/
inductive KeyPattern where
  /-- A fixed key. -/
  | literal (key : Text)
  /-- An id, a slash, then a fixed suffix. -/
  | suffixed (suffix : Text)
  /-- A fixed prefix, a slash, then free text. -/
  | prefixed (front : Text)
  /-- The whole key is free text. -/
  | any
  deriving DecidableEq, Repr

/-- What an entry's `args` tuple looks like. -/
structure ArgsSpec where
  /-- Normalised source text of the whole type. -/
  source : Text
  /-- Tuple lengths, ascending and deduplicated. -/
  arities : List ℕ
  /-- Whether any alternative is an unbounded array. -/
  variadic : Bool
  deriving DecidableEq, Repr

/-- One `{ key; args }` entry. -/
structure Event where
  key : KeyPattern
  /-- Source text of the key, kept verbatim. -/
  keySource : Text
  args : ArgsSpec
  deriving DecidableEq, Repr

/-- One stream. -/
structure Stream where
  /-- Name as declared. -/
  name : Text
  /-- Event entries, in declaration order. -/
  events : List Event
  deriving DecidableEq, Repr

/-- Everything `interface StreamerEvents` declares. -/
structure Catalog where
  /-- One entry per stream, in declaration order. -/
  streams : List Stream
  deriving DecidableEq, Repr

/-! ### Keys and arguments -/

/-- The type of a key that is free text. -/
def hole : Text := text "$\x7bstring\x7d"

/-- A hole with a slash and fixed text after it. -/
def suffixOf (inner : Text) : Option Text := do
  let suffix ← (stripFront hole inner).bind (stripFront [slash])
  if !suffix.isEmpty && !hasPart suffix [dollar, braceOpen] then some suffix else none

/-- Fixed text with a slash and a hole after it. -/
def prefixOf (inner : Text) : Option Text := do
  let front ← (stripBack hole inner).bind (stripBack [slash])
  if !front.isEmpty && !hasPart front [dollar, braceOpen] then some front else none

/-- What is said of a template that is no key. -/
def unknownTemplate : Text := text "template-literal key is not one of " ++
  text "`$\x7bstring\x7d`, `$\x7bstring\x7d/suffix`, `prefix/$\x7bstring\x7d`"

/-- What is said of anything else that is no key. -/
def unknownKey : Text :=
  text "key is neither a string literal, a template literal, nor `string`"

/-- Classifies a `key:` type. -/
def parseKey (src : Text) (start stop : ℕ) : Reading KeyPattern := do
  let key ← slice src start stop
  match (stripQuotes key singleQuote).or (stripQuotes key doubleQuote) with
  | some inner =>
    if inner.contains dollar || inner.contains backslash then
      err src start (text "quoted key is not a plain literal") key
    else return .literal inner
  | none =>
    if key = text "string" then return .any
    else match stripQuotes key backtick with
      | some inner =>
        if inner = hole then return .any
        else match suffixOf inner with
          | some suffix => return .suffixed suffix
          | none => match prefixOf inner with
            | some front => return .prefixed front
            | none => err src start unknownTemplate key
      | none => err src start unknownKey key

/-- Whether one tuple element is declared optional. -/
def isOptionalElement (src : Text) (start stop : ℕ) : Reading Bool := do
  let labelEnd ← findTopLevel src start stop [colon]
  let element ← slice src start (trimRange src start (labelEnd.getD stop)).2
  return element.getLast? = some question

/-- The slots of a tuple: how many, and up to which one they are required. -/
def countElements (src : Text) : List (ℕ × ℕ) → ℕ × ℕ → Reading (ℕ × ℕ)
  | [], counts => .ok counts
  | part :: parts, (n, required) => do
    let (start, stop) := trimRange src part.1 part.2
    if start = stop then countElements src parts (n, required) -- trailing comma
    else
      let element ← slice src start stop
      if (text "...").isPrefixOf element then
        errAt src start "a rest element in an args tuple is not understood" start stop
      else
        let optional ← isOptionalElement src start stop
        countElements src parts (n + 1, if optional then required else n + 1)

/-- Adds the arities of a tuple that are not there yet. -/
def addArities (arities : List ℕ) (required n : ℕ) : List ℕ :=
  (List.range' required (n + 1 - required)).foldl
    (fun arities arity => if arities.contains arity then arities else arities ++ [arity]) arities

/-- The alternatives of an `args:` type: the arities, and whether one has none. -/
def parseAlternatives (src : Text) : List (ℕ × ℕ) → List ℕ × Bool → Reading (List ℕ × Bool)
  | [], found => .ok found
  | part :: parts, (arities, variadic) => do
    let (start, stop) := trimRange src part.1 part.2
    if start = stop then parseAlternatives src parts (arities, variadic) -- leading `|`
    else
      let alternative ← slice src start stop
      if alternative.head? = some bracketOpen ∧ alternative.getLast? = some bracketClose then
        let close ← balanced src start bracketOpen bracketClose
        if close + 1 ≠ stop then
          err src start (text "trailing text after an args tuple") alternative
        else
          let elements ← splitTopLevel src (start + 1) (stop - 1) [comma]
          let (n, required) ← countElements src elements (0, 0)
          parseAlternatives src parts (addArities arities required n, variadic)
      else if [bracketOpen, bracketClose].isSuffixOf alternative then
        parseAlternatives src parts (arities, true)
      else
        err src start (text "args alternative is neither a tuple `[…]` nor an array `T[]`")
          alternative

/-- Extracts arity information from an `args:` type. -/
def parseArgs (src : Text) (start stop : ℕ) : Reading ArgsSpec := do
  let parts ← splitTopLevel src start stop [bar]
  let (arities, variadic) ← parseAlternatives src parts ([], false)
  if arities.isEmpty && !variadic then
    errAt src start "args type has no alternatives" start stop
  else
    let source ← slice src start stop
    return { source := normalise source, arities := arities.insertionSort (· ≤ ·),
             variadic := variadic }

/-! ### Entries and streams -/

/-- The members of an entry found so far. -/
structure Members where
  key : Option (KeyPattern × Text) := none
  args : Option ArgsSpec := none

/-- The members of an entry. -/
def parseMembers (src : Text) : List (ℕ × ℕ) → Members → Reading Members
  | [], members => .ok members
  | part :: parts, members => do
    let (start, stop) := trimRange src part.1 part.2
    if start = stop then parseMembers src parts members
    else
      let found ← findTopLevel src start stop [colon]
      match found with
      | none => errAt src start "entry member has no `:`" start stop
      | some colonAt =>
        let name ← slice src start colonAt
        let value := trimRange src (colonAt + 1) stop
        if trim name = text "key" then
          if members.key.isSome then errAt src start "duplicate `key` member" start stop
          else
            let key ← parseKey src value.1 value.2
            let keySource ← slice src value.1 value.2
            parseMembers src parts { members with key := some (key, keySource) }
        else if trim name = text "args" then
          if members.args.isSome then errAt src start "duplicate `args` member" start stop
          else
            let args ← parseArgs src value.1 value.2
            parseMembers src parts { members with args := some args }
        else
          let context ← slice src start stop
          err src start (text "unexpected member `" ++ trim name ++
            text "` — only `key` and `args` are understood") context

/-- Parses the members of one `{ key: …; args: … }` object. -/
def parseEntry (src : Text) (start stop : ℕ) : Reading Event := do
  let parts ← splitTopLevel src start stop [semicolon, comma]
  let members ← parseMembers src parts {}
  match members.key with
  | none => errAt src start "entry has no `key`" start stop
  | some (key, keySource) =>
    match members.args with
    | none => errAt src start "entry has no `args`" start stop
    | some args => return { key := key, keySource := keySource, args := args }

/-- The entries of a stream. -/
def parseObjects (src : Text) : List (ℕ × ℕ) → List Event → Reading (List Event)
  | [], events => .ok events
  | part :: parts, events => do
    let (start, stop) := trimRange src part.1 part.2
    if start = stop then parseObjects src parts events -- trailing comma
    else
      let object ← slice src start stop
      if object.head? = some braceOpen ∧ object.getLast? = some braceClose then
        let event ← parseEntry src (start + 1) (stop - 1)
        parseObjects src parts (events ++ [event])
      else errAt src start "expected an entry object `\x7b key: …; args: … \x7d`" start stop

/-- Parses the `[ {…}, {…} ]` list of entries. -/
def parseEntries (src : Text) (start stop : ℕ) : Reading (List Event) := do
  let parts ← splitTopLevel src start stop [comma]
  let events ← parseObjects src parts []
  if events.isEmpty then errAt src start "a stream declared no events" start stop
  else return events

/-- A byte of a bare name. -/
def isNameByte (b : UInt8) : Bool := isAlphanumeric b || b == underscore || b == dollar

/-- Reads a property name, and where it ends. -/
def propertyName (src : Text) (start stop : ℕ) : Reading (Text × ℕ) := do
  let c ← byteAt src start
  if isQuote c then
    if c = backtick then errAt src start "a stream name must be a plain string" start stop
    else
      let after ← skipString src start
      let inner ← slice src (start + 1) (after - 1)
      if inner.contains backslash then
        err src start (text "escapes in a stream name are not supported") inner
      else return (inner, after)
  else
    let i := start + (((src.drop start).take (stop - start)).takeWhile isNameByte).length
    if i = start then errAt src start "expected a stream name" start stop
    else
      let name ← slice src start i
      return (name, i)

/-- One stream of the interface: its name and entries, and where its value is closed. -/
def readStream (src : Text) (stop pos : ℕ) : Reading (Stream × ℕ) := do
  let (name, after) ← propertyName src pos stop
  let pos := skipWs src after
  let rest ← slice src pos stop
  if rest.head? ≠ some colon then err src pos (text "expected `:` after a stream name") rest
  else
    let pos := skipWs src (pos + 1)
    let rest ← slice src pos stop
    if rest.head? ≠ some bracketOpen then
      err src pos (text "expected a `[` — every StreamerEvents value is an array of entries") rest
    else
      let close ← balanced src pos bracketOpen bracketClose
      let events ← parseEntries src (pos + 1) close
      return ({ name := name, events := events }, close)

/-- Skips the `;` before a stream. -/
def skipSemicolons (src : Text) (stop : ℕ) : ℕ → ℕ → Reading ℕ
  | 0, _ => .hang
  | fuel + 1, pos => do
    let rest ← slice src pos stop
    if rest.head? = some semicolon then skipSemicolons src stop fuel (skipWs src (pos + 1))
    else return pos

/-- The main loop of `parse`. -/
def streamsLoop (src : Text) (stop : ℕ) : ℕ → ℕ → List Stream → Reading (List Stream)
  | 0, _, _ => .hang
  | fuel + 1, pos, streams => do
    let pos ← skipSemicolons src stop (src.length + 1) (skipWs src pos)
    if stop ≤ pos then return streams
    else
      let (stream, close) ← readStream src stop pos
      streamsLoop src stop fuel (close + 1) (streams ++ [stream])

/-- The header that is looked for. -/
def needle : Text := text "interface StreamerEvents"

/-- Reads the interface out of a text without comments. -/
def parseStripped (src : Text) : Reading Catalog :=
  match find needle src with
  | none => err src 0 (text "`interface StreamerEvents` not found") []
  | some start => do
    let rest ← sliceFrom src start
    match find [braceOpen] rest with
    | none => err src start (text "no `\x7b` after `interface StreamerEvents`") needle
    | some i =>
      let brace := start + i
      let stop ← balanced src brace braceOpen braceClose
      let streams ← streamsLoop src stop (src.length + 1) (brace + 1) []
      if streams.isEmpty then
        err src (brace + 1) (text "`StreamerEvents` parsed as empty") []
      else return { streams := streams }

/-- Reads `interface StreamerEvents` out of a text. -/
def parseText (source : Text) : Reading Catalog := do
  let src ← stripComments source
  parseStripped src

/-- Reads `interface StreamerEvents` out of a copy of `streams.ts`. -/
def parse (source : String) : Reading Catalog := parseText (text source)

end Codegen

end RocketSocket
