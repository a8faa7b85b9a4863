import EdgarSec.Foundation.Unicode
import EdgarSec.Lib.Regex

/-! Python's pattern syntax, as far as the patterns of this program use it: `re.compile` reads a
pattern character by character. -/

namespace EdgarSec.Patterns
open Lib Foundation

/-! ## Characters -/

/-- What `re` knows of characters outside ASCII. Ignoring case, characters match where their keys
are the same. -/
structure CharTables extends Unicode where
  caseKey : Char → Char
  word : Char → Bool
  caseKey_space : ∀ c, isPySpace (caseKey c) = isPySpace c

namespace CharTables
variable (u : CharTables)

def keyOf (ignoreCase : Bool) (c : Char) : Char :=
  if ignoreCase then (if isAscii c then c.toLower else u.caseKey c) else c

/-- `\w` -/
def isWord (c : Char) : Bool := if isAscii c then c.isAlphanum || c = '_' else u.word c

end CharTables

def asciiTables : CharTables where
  casefold c := [c]
  lower _ _ c := [c]
  upper c := [c]
  decimal _ := none
  isDigit _ := false
  nfkc text := text
  decimal_space := no_decimal_space
  caseKey c := c
  word _ := false
  caseKey_space c := Eq.refl (isPySpace c)

/-! ## What a pattern consists of -/

inductive SetItem where
  | single (c : Char)
  | range (low high : Char)
  | digit
  | space
  deriving DecidableEq, Repr

inductive CharTest where
  | literal (c : Char)
  | any
  | digit
  | space
  | oneOf (negated : Bool) (items : List SetItem)
  deriving DecidableEq, Repr

inductive Assertion where
  | start
  | finish
  | wordEdge
  | notBehind (a : CharTest)
  deriving DecidableEq, Repr

abbrev Re := Regex CharTest Assertion

structure Flags where
  ignoreCase : Bool := false
  dotAll : Bool := false
  deriving DecidableEq, Repr

structure Pattern where
  flags : Flags
  regex : Re

section Tests
variable (u : CharTables) (flags : Flags)

def SetItem.test (item : SetItem) (c : Char) : Bool :=
  match item with
  | single a => u.keyOf flags.ignoreCase a = u.keyOf flags.ignoreCase c
  | range low high =>
    (List.range' low.toNat (high.toNat + 1 - low.toNat)).any fun n =>
      u.keyOf flags.ignoreCase (Char.ofNat n) = u.keyOf flags.ignoreCase c
  | digit => u.isDecimal c
  | space => isPySpace c

def CharTest.test (a : CharTest) (c : Char) : Bool :=
  match a with
  | literal a => u.keyOf flags.ignoreCase a = u.keyOf flags.ignoreCase c
  | any => flags.dotAll || c ≠ '\n'
  | digit => u.isDecimal c
  | space => isPySpace c
  | oneOf negated items => negated != items.any fun item => item.test u flags c

def Assertion.holds (t : Assertion) (before rest : Chars) : Bool :=
  match t with
  | start => before = []
  | finish => rest = [] || rest = ['\n']
  | wordEdge => before.head?.any u.isWord != rest.head?.any u.isWord
  | notBehind a => !before.head?.any fun c => a.test u flags c

end Tests

namespace Pattern
variable (u : CharTables) (pattern : Pattern)

/-- `pattern.match(text, pos)`: the match at one place. -/
def matchAt (p : Spot Char) : Option (Spot Char) :=
  pattern.regex.matchAt (fun a c => a.test u pattern.flags c) (fun t before rest => t.holds u pattern.flags before rest) p

def search (text : Chars) : Option (Spot Char × Spot Char) :=
  pattern.regex.search (fun a c => a.test u pattern.flags c) (fun t before rest => t.holds u pattern.flags before rest) text

def fullmatch (text : Chars) : Option (Spot Char) :=
  pattern.regex.fullmatchAt (fun a c => a.test u pattern.flags c)
    (fun t before rest => t.holds u pattern.flags before rest) ⟨[], text, []⟩

def sub (new text : Chars) : Chars :=
  pattern.regex.sub (fun a c => a.test u pattern.flags c) (fun t before rest => t.holds u pattern.flags before rest)
    new text

end Pattern

/-! ## Reading a pattern -/

inductive GroupKind where
  | whole
  | plain
  | named (name : Chars)
  | notBehind
  deriving DecidableEq, Repr

structure Frame where
  kind : GroupKind
  alternatives : List Re := []
  items : List Re := []

structure SetState where
  negated : Bool := false
  items : List SetItem := []
  deriving DecidableEq, Repr

inductive Mode where
  | plain
  | escape
  | opened
  | extension
  | nameStart
  | name (read : Chars)
  | behind
  | flag
  | setStart
  | set (s : SetState)
  | setEscape (s : SetState)
  | setRange (s : SetState) (low : Char)
  | least (read : Chars)
  | most (least : Chars) (read : Chars)
  deriving DecidableEq, Repr

structure Reader where
  mode : Mode := .plain
  frame : Frame
  outer : List Frame := []
  ignoreCase : Bool := false
  captures : Nat := 0

def sequence (items : List Re) : Re := items.foldr .cat .empty

def choose : List Re → Re
  | [] => .empty
  | [r] => r
  | r :: rest => .alt r (choose rest)

namespace Frame

def push (frame : Frame) (r : Re) : Frame := { frame with items := r :: frame.items }

def body (frame : Frame) : Re := choose ((sequence frame.items.reverse :: frame.alternatives).reverse)

def close (frame : Frame) : Option Re :=
  match frame.kind with
  | .whole => none
  | .plain => some (.group none frame.body)
  | .named name => some (.group (some (String.ofList name)) frame.body)
  | .notBehind =>
    match frame.body with
    | .cat (.one a) .empty => some (.check (.notBehind a))
    | _ => none

def quantify (frame : Frame) (least : Nat) (most : Option Nat) : Option Frame :=
  match frame.items with
  | [] => none
  | .check _ :: _ => none
  | .rep low high true r :: items =>
    if least = 0 ∧ most = some 1 then some { frame with items := .rep low high false r :: items } else none
  | .rep _ _ false _ :: _ => none
  | r :: items => some { frame with items := .rep least most true r :: items }

end Frame

namespace Reader
variable (r : Reader)

def push (item : Re) : Reader := { r with mode := .plain, frame := r.frame.push item }

def quantify (least : Nat) (most : Option Nat) : Option Reader :=
  (r.frame.quantify least most).map fun frame => { r with mode := .plain, frame := frame }

def openGroup (kind : GroupKind) : Reader :=
  { r with mode := .plain, frame := ⟨kind, [], []⟩, outer := r.frame :: r.outer }

def closeGroup : Option Reader :=
  match r.outer with
  | [] => none
  | frame :: outer => r.frame.close.map fun item => { r with mode := .plain, frame := frame.push item, outer := outer }

def nextAlternative : Reader :=
  { r with mode := .plain, frame := ⟨r.frame.kind, sequence r.frame.items.reverse :: r.frame.alternatives, []⟩ }

def escaped (c : Char) : Option Re :=
  if c = 'd' then some (.one .digit)
  else if c = 's' then some (.one .space)
  else if c = 'b' then some (.check .wordEdge)
  else if c = 'n' then some (.one (.literal '\n'))
  else if c = 't' then some (.one (.literal '\t'))
  else if isAscii c && c.isAlphanum then none
  else some (.one (.literal c))

def setEscaped (c : Char) : Option SetItem :=
  if c = 'd' then some .digit
  else if c = 's' then some .space
  else if c = 'n' then some (.single '\n')
  else if c = 't' then some (.single '\t')
  else if isAscii c && c.isAlphanum then none
  else some (.single c)

def feedPlain (c : Char) : Option Reader :=
  if c = '\\' then some { r with mode := .escape }
  else if c = '[' then some { r with mode := .setStart }
  else if c = '(' then some { r with mode := .opened }
  else if c = ')' then r.closeGroup
  else if c = '|' then some r.nextAlternative
  else if c = '?' then r.quantify 0 (some 1)
  else if c = '*' then r.quantify 0 none
  else if c = '+' then r.quantify 1 none
  else if c = '{' then some { r with mode := .least [] }
  else if c = '^' then some (r.push (.check .start))
  else if c = '$' then some (r.push (.check .finish))
  else if c = '.' then some (r.push (.one .any))
  else some (r.push (.one (.literal c)))

def closeSet (s : SetState) : Reader := r.push (.one (.oneOf s.negated s.items.reverse))

def feedSet (s : SetState) (c : Char) : Reader :=
  if c = ']' then r.closeSet s
  else if c = '\\' then { r with mode := .setEscape s }
  else if c = '-' then
    match s.items with
    | .single low :: items => { r with mode := .setRange { s with items := items } low }
    | _ => { r with mode := .set { s with items := .single c :: s.items } }
  else { r with mode := .set { s with items := .single c :: s.items } }

def digits? (read : Chars) : Option Nat :=
  if read ≠ [] ∧ read.all Char.isDigit then some (read.foldl (fun n c => 10 * n + (c.toNat - 48)) 0) else none

def feed (c : Char) : Option Reader :=
  match r.mode with
  | .plain => r.feedPlain c
  | .escape => (escaped c).map r.push
  | .opened =>
    if c = '?' then some { r with mode := .extension }
    else
      (({ r with captures := r.captures + 1 } : Reader).openGroup (.named (toString (r.captures + 1)).toList)).feedPlain c
  | .extension =>
    if c = ':' then some (r.openGroup .plain)
    else if c = 'P' then some { r with mode := .nameStart }
    else if c = '<' then some { r with mode := .behind }
    else if c = 'i' then some { r with mode := .flag }
    else none
  | .nameStart => if c = '<' then some { r with mode := .name [] } else none
  | .name read =>
    if c = '>' then some (({ r with captures := r.captures + 1 } : Reader).openGroup (.named read))
    else some { r with mode := .name (read ++ [c]) }
  | .behind => if c = '!' then some (r.openGroup .notBehind) else none
  | .flag => if c = ')' then some { r with mode := .plain, ignoreCase := true } else none
  | .setStart =>
    if c = '^' then some { r with mode := .set { negated := true } }
    else if c = ']' then none
    else some (r.feedSet {} c)
  | .set s => some (r.feedSet s c)
  | .setEscape s => (setEscaped c).map fun item => { r with mode := .set { s with items := item :: s.items } }
  | .setRange s low =>
    if c = ']' then some (r.closeSet { s with items := .single '-' :: .single low :: s.items })
    else if c = '\\' then none
    else some { r with mode := .set { s with items := .range low c :: s.items } }
  | .least read =>
    if c = '}' then (digits? read).bind fun n => r.quantify n (some n)
    else if c = ',' then some { r with mode := .most read [] }
    else some { r with mode := .least (read ++ [c]) }
  | .most least read =>
    if c = '}' then
      (digits? least).bind fun low =>
        if read = [] then r.quantify low none else (digits? read).bind fun high => r.quantify low (some high)
    else some { r with mode := .most least (read ++ [c]) }

def feedAll (r : Reader) : Chars → Option Reader
  | [] => some r
  | c :: rest => (r.feed c).bind fun r' => r'.feedAll rest

end Reader

/-- `re.compile`, or nothing for a pattern with other syntax. -/
def compile (flags : Flags) (pattern : Chars) : Option Pattern :=
  (Reader.feedAll { frame := { kind := .whole } } pattern).bind fun r =>
    if r.mode = .plain ∧ r.outer.isEmpty then
      some ⟨{ flags with ignoreCase := flags.ignoreCase || r.ignoreCase }, r.frame.body⟩
    else none

end EdgarSec.Patterns
