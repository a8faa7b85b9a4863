import EdgarSec.Lexical.Tokens
import EdgarSec.Patterns.Syntax

/-! `build_alternation`: a list of words as one pattern, plain or factored through a prefix tree. -/

namespace EdgarSec.Patterns
open Lib Foundation Lexical

/-! ## Escaping -/

/-- The characters `re.escape` puts a backslash before. -/
def specialChars : Chars :=
  ['(', ')', '[', ']', '\x7b', '\x7d', '?', '*', '+', '-', '|', '^', '$', '\\', '.', '&', '~', '#', ' ', '\t', '\n',
    '\r', '\x0b', '\x0c']

def escapeChar (c : Char) : Chars := if specialChars.contains c then ['\\', c] else [c]

def escape (text : Chars) : Chars := text.flatMap escapeChar

/-! ## The prefix tree -/

structure TrieNode where
  isEnd : Bool := false
  children : List (Char × TrieNode) := []

def TrieNode.insert : Chars → TrieNode → TrieNode
  | [], node => ⟨true, node.children⟩
  | c :: word, node =>
    ⟨node.isEnd,
      if node.children.any fun e => e.1 = c then
        node.children.map fun e => if e.1 = c then (c, TrieNode.insert word e.2) else e
      else node.children ++ [(c, TrieNode.insert word {})]⟩

def buildPrefixTrie (words : List Chars) : TrieNode :=
  words.foldl (fun root word => if word = [] then root else root.insert word) {}

def isSingle (branch : Chars) : Bool := branch.length = 1 || (branch.length = 2 && ['\\'].isPrefixOf branch)

def groupOpen : Chars := ['(', '?', ':']

def factored : List Chars → Chars
  | [branch] => branch
  | branches =>
    if branches.all isSingle then ['['] ++ branches.flatten ++ [']']
    else groupOpen ++ ['|'].intercalate branches ++ [')']

def joinBranches (isEnd : Bool) (branches : List Chars) : Chars :=
  let result := factored branches
  if isEnd then
    if 1 < branches.length ∨ groupOpen.isPrefixOf result = false then groupOpen ++ result ++ [')', '?'] else result ++ ['?']
  else result

mutual

def trieToRegex (autoEscape : Bool) : TrieNode → Chars
  | ⟨isEnd, children⟩ =>
    if children.isEmpty then []
    else joinBranches isEnd (((branchesOf autoEscape children).insertionSort fun a b => a.1 ≤ b.1).map Prod.snd)

def branchesOf (autoEscape : Bool) : List (Char × TrieNode) → List (Char × Chars)
  | [] => []
  | (c, child) :: rest =>
    (c, (if autoEscape then escapeChar c else [c]) ++ trieToRegex autoEscape child) :: branchesOf autoEscape rest

end

def unique (words : List Chars) : List Chars :=
  words.foldl (fun seen word => if seen.contains word then seen else seen ++ [word]) []

def compactAlternation (autoEscape : Bool) (words : List Chars) : Chars :=
  match words with
  | [] => []
  | [word] => if autoEscape then escape word else word
  | _ =>
    let pattern := trieToRegex autoEscape (buildPrefixTrie (unique words))
    if groupOpen.isPrefixOf pattern ∧ [')'].isSuffixOf pattern then pattern else groupOpen ++ pattern ++ [')']

/-! ## Alternations -/

def longerFirst (a b : Chars) : Prop :=
  (pySplit b).length < (pySplit a).length ∨
    ((pySplit a).length = (pySplit b).length ∧ b.length ≤ a.length)

instance : DecidableRel longerFirst := by
  intro a b
  unfold longerFirst
  infer_instance

/-- `replace(r"\ ", r"\s+")` -/
def escapedBlanks : Chars → Chars
  | '\\' :: ' ' :: rest => ['\\', 's', '+'] ++ escapedBlanks rest
  | c :: rest => c :: escapedBlanks rest
  | [] => []

/-- A run of blanks and tabs becomes one `\s+`; `inRun` says that the last character was one. -/
def plainBlanks (inRun : Bool) : Chars → Chars
  | [] => []
  | c :: rest =>
    if c = ' ' ∨ c = '\t' then (if inRun then [] else ['\\', 's', '+']) ++ plainBlanks true rest
    else c :: plainBlanks false rest

structure AlternationOptions where
  sortLongestFirst : Bool := true
  autoEscape : Bool := false
  compact : Bool := false
  flexibleWhitespace : Bool := false
  neverMatchEmpty : Bool := false

def flexible (options : AlternationOptions) (pattern : Chars) : Chars :=
  if options.flexibleWhitespace then (if options.autoEscape then escapedBlanks pattern else plainBlanks false pattern)
  else pattern

def buildAlternation (options : AlternationOptions) (flat : List Chars) : Chars :=
  match flat with
  | [] => if options.neverMatchEmpty then ['(', '?', '!', ')'] else []
  | [val] => flexible options (if options.autoEscape then escape val else val)
  | _ =>
    let uniqueItems := unique flat
    if options.compact then flexible options (compactAlternation options.autoEscape uniqueItems)
    else
      let sorted := if options.sortLongestFirst then uniqueItems.insertionSort longerFirst else uniqueItems
      let escaped := if options.autoEscape then sorted.map escape else sorted
      groupOpen ++ ['|'].intercalate (escaped.map (flexible options)) ++ [')']

end EdgarSec.Patterns
