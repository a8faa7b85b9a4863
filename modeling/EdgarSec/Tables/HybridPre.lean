import EdgarSec.Foundation.Lines
import EdgarSec.Tables.Protection

/-! `<pre>` blocks behind private tokens, and what is put back for them. -/

namespace EdgarSec.Tables
open Foundation Lib Substitution

inductive PreBlockKind where
  | sgmlTable
  | htmlTable
  | monospaceText
  | narrativeProse
  deriving DecidableEq

/-- `_TOKEN_PREFIX` -/
def hybridLead : Chars := "__SEC_HYBRID_PRE_".toList

/-! ## Blocks -/

def closesTag (name text : Chars) : Option Nat :=
  let spaces := ((text.drop name.length).takeWhile isPySpace).length
  if startsWithFolded name text ∧ text[name.length + spaces]? = some '>' then some (name.length + spaces + 1) else none

section Blocks
variable (isWord : Char → Bool)

def opensTag (name text : Chars) : Bool := startsWithFolded name text && !text[name.length]?.any isWord

/-- `_PRE_BLOCK_RE` at a place, with the body. -/
def readPre : Reader Char Chars := fun text =>
  if opensTag isWord "<pre".toList text then do
    let gt ← findAt (fun rest => rest.head? = some '>') text 4
    let close ← findAt (fun rest => (closesTag "</pre".toList rest).isSome) text (gt + 1)
    let length ← closesTag "</pre".toList (text.drop close)
    some (slice text (gt + 1) close, close + length)
  else none

/-- `_TABLE_RE.search`: where the first table starts and stops. -/
def findHtmlTable (body : Chars) : Option (Nat × Nat) := do
  let closes (rest : Chars) (n : Nat) : Option Nat := findAt (fun later => (closesTag "</table".toList later).isSome) rest n
  let start ← findAt (fun rest => opensTag isWord "<table".toList rest && (closes rest 6).isSome) body 0
  let close ← closes body (start + 6)
  let length ← closesTag "</table".toList (body.drop close)
  some (start, close + length)

def looksLikeMonospaceText (inner : Chars) : Bool :=
  let lines := (splitlines (stripChars inner)).map stripChars
  let isDivider (line : Chars) : Bool := 3 ≤ line.length && line.all fun c => c = '-' || c = '='
  if stripChars inner = [] ∨ lines.length < 2 then false
  else lines.any isDivider || decide (2 ≤ lines.countP fun line => line.contains '-' && 3 < line.length)

/-- `_classify_pre_source`. The letter of the `<S>` marker has a second small form. -/
def classifyPreSource (body : Chars) : PreBlockKind :=
  let holds (names : List String) : Bool := names.any fun name => (findAt (opensTag isWord name.toList) body 0).isSome
  let hasTable := (findHtmlTable isWord body).isSome
  let hasCellMarkers := holds ["<s", "<\u017f", "<c"]
  let hasHtmlRows := holds ["<td", "<th"]
  if hasTable && (hasCellMarkers || !hasHtmlRows) then .sgmlTable
  else if hasTable && hasHtmlRows then .htmlTable
  else if looksLikeMonospaceText body then .monospaceText
  else .narrativeProse

/-- What is put back for a block; `convert` renders an HTML table. -/
def payloadOf (convert : Chars → Chars) (body : Chars) : Chars :=
  if classifyPreSource isWord body = .htmlTable then
    match findHtmlTable isWord body with
    | none => body
    | some (start, stop) =>
      let rendered := convert (slice body start stop)
      if rendered = [] then body else body.take start ++ rendered ++ body.drop stop
  else body

/-! ## Tokens -/

def freshFrom (text : Chars) : Nat → Chars → Chars
  | 0, token => token
  | fuel + 1, token => if token <:+: text then freshFrom text fuel (token ++ ['_']) else token

def hybridToken (text : Chars) (index : Nat) : Chars :=
  let token := hybridLead ++ Nat.toDigits 10 index ++ "__".toList
  if hybridLead <:+: text then freshFrom text (text.length + 1) token else token

structure HybridPreText where
  text : Chars
  guarded : List (Chars × Chars)

def normalizeHybridPreText (convert : Chars → Chars) (text : Chars) : HybridPreText :=
  let parts := scan (readPre isWord) text
  if tokens parts = [] then ⟨text, []⟩
  else ⟨numbered (hybridToken text) 0 parts, (tokens parts).zipIdx.map fun (body, index) => (hybridToken text index, payloadOf isWord convert body)⟩

end Blocks

def readToken (guarded : List (Chars × Chars)) : Reader Char (Chars × Chars) := fun text =>
  guarded.findSome? fun (token, payload) => if token <+: text then some ((token, payload), token.length) else none

def missingToken (token : Chars) : Except String Chars :=
  .error s!"hybrid pre token missing during restore: {pyRepr (String.ofList token)}"

def restoreHybridPreText (text : Chars) (guarded : List (Chars × Chars)) : Except String Chars :=
  let parts := scan (readToken guarded) text
  match guarded with
  | [] => .ok text
  | [(token, _)] => if token <:+: text then .ok (filled Prod.snd parts) else missingToken token
  | _ =>
    match guarded.find? fun entry => (tokens parts).all fun found => found.1 ≠ entry.1 with
    | some entry => missingToken entry.1
    | none => .ok (filled Prod.snd parts)

end EdgarSec.Tables
