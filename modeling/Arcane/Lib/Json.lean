import Arcane.Lib.JsonValue
import Mathlib.Data.List.Sort

/-!
# The text of JSON values

* `render`: `json.dumps` and `JSON.stringify`, which differ in what they escape, in the blanks they
  write and in whether they sort the members of an object (`Style`).
* `parse`: `json.loads`.
-/

namespace Json

open Text

section Numbers

def isDigit (c : CodePoint) : Bool := 48 ≤ c.val && c.val ≤ 57

/-- The code points of a number. -/
def isNumber (c : CodePoint) : Bool :=
  isDigit c || c = ofChar '-' || c = ofChar '+' || c = ofChar '.' || c = ofChar 'e' ||
    c = ofChar 'E'

/-- Removes a sign. -/
def dropSign (s : Str) : Str := if s.head? = some (ofChar '-') then s.tail else s

/-- Removes `0|[1-9]\d*`. -/
def dropInt (s : Str) : Option Str :=
  match s.takeWhile isDigit with
  | [] => none
  | d :: ds => if d = ofChar '0' ∧ ds ≠ [] then none else some (s.dropWhile isDigit)

/-- Removes `\d+`. -/
def dropDigits (s : Str) : Option Str :=
  if s.takeWhile isDigit = [] then none else some (s.dropWhile isDigit)

/-- Removes `(\.\d+)?`, and tells whether it was there. -/
def dropFrac : Str → Option (Bool × Str)
  | [] => some (false, [])
  | c :: s => if c = ofChar '.' then (dropDigits s).map (true, ·) else some (false, c :: s)

/-- Removes `[+-]?`. -/
def dropExpSign : Str → Str
  | [] => []
  | c :: s => if c = ofChar '+' ∨ c = ofChar '-' then s else c :: s

/-- Removes `([eE][+-]?\d+)?`, and tells whether it was there. -/
def dropExp : Str → Option (Bool × Str)
  | [] => some (false, [])
  | c :: s =>
    if c = ofChar 'e' ∨ c = ofChar 'E' then (dropDigits (dropExpSign s)).map (true, ·)
    else some (false, c :: s)

/-- A number, and whether it has a fraction or an exponent. -/
def numberForm (s : Str) : Option Bool := do
  let s ← dropInt (dropSign s)
  let (frac, s) ← dropFrac s
  let (exp, s) ← dropExp s
  if s = [] then some (frac || exp) else none

end Numbers

/-- The text of finite floating point numbers, which has a fraction or an exponent and is read
back. -/
class FloatText (F : Type) where
  repr : F → Str
  ofText : Str → Double F
  repr_form : ∀ x, numberForm (repr x) = some true
  ofText_repr : ∀ x, ofText (repr x) = .finite x

/-- How a writer differs from the others. -/
structure Style where
  /-- Written as `\uXXXX`, as control characters are. -/
  escapes : CodePoint → Bool
  /-- A blank after `,` and `:`. -/
  spaced : Bool
  sortKeys : Bool

section Render

variable {F : Type} [FloatText F] (S : Style)

def hexDigit (d : ℕ) : CodePoint :=
  if d % 16 < 10 then ⟨48 + d % 16, by omega⟩ else ⟨87 + d % 16, by omega⟩

/-- `\uXXXX`. -/
def escapeUnit (n : ℕ) : Str :=
  [ofChar '\\', ofChar 'u', hexDigit (n / 4096), hexDigit (n / 256), hexDigit (n / 16), hexDigit n]

/-- The surrogates of a code point above the first `2^16`. -/
def highUnit (c : CodePoint) : ℕ := 0xD800 + (c.val - 0x10000) / 1024

def lowUnit (c : CodePoint) : ℕ := 0xDC00 + (c.val - 0x10000) % 1024

/-- One or two UTF-16 code units. -/
def escapeUnits (c : CodePoint) : Str :=
  if c.val < 0x10000 then escapeUnit c.val
  else escapeUnit (highUnit c) ++ escapeUnit (lowUnit c)

/-- The letter of a two-character escape. -/
def shortEscape (c : CodePoint) : Option CodePoint :=
  if c = ofChar '"' ∨ c = ofChar '\\' then some c
  else if c.val = 8 then some (ofChar 'b')
  else if c.val = 9 then some (ofChar 't')
  else if c.val = 10 then some (ofChar 'n')
  else if c.val = 12 then some (ofChar 'f')
  else if c.val = 13 then some (ofChar 'r')
  else none

def escape (c : CodePoint) : Str :=
  match shortEscape c with
  | some e => [ofChar '\\', e]
  | none => if c.val < 32 ∨ S.escapes c then escapeUnits c else [c]

def renderString (s : Str) : Str := ofChar '"' :: s.flatMap (escape S) ++ [ofChar '"']

def sep (c : Char) : Str := if S.spaced then [ofChar c, ofChar ' '] else [ofChar c]

/-- `sep.join(texts)`. -/
def joined : List Str → Str
  | [] => []
  | [t] => t
  | t :: ts => t ++ sep S ',' ++ joined ts

def renderFloat : Double F → Str
  | .finite x => FloatText.repr x
  | .nan => lit "NaN"
  | .infinity => lit "Infinity"
  | .negInfinity => lit "-Infinity"

/-- What stands for a byte string, on which `json.dumps` raises `TypeError`: a surrogate, so that no
text with it can be encoded. -/
def unwritable : Str := [0xD800]

/-- The members with their keys in order, as `sort_keys` writes them. -/
def sorted {α : Type} (members : List (Str × α)) : List (Str × α) :=
  members.mergeSort fun p q => p.1 ≤ q.1

def member (m : Str × Str) : Str := renderString S m.1 ++ sep S ':' ++ m.2

mutual

def render : Json F → Str
  | .null => lit "null"
  | .bool b => if b then lit "true" else lit "false"
  | .int n => intText n
  | .float x => renderFloat x
  | .str s => renderString S s
  | .bytes _ => unwritable
  | .arr items => ofChar '[' :: joined S (renderItems items) ++ [ofChar ']']
  | .obj members =>
    let members := renderMembers members
    let members := if S.sortKeys then sorted members else members
    ofChar '{' :: joined S (members.map (member S)) ++ [ofChar '}']

def renderItems : List (Json F) → List Str
  | [] => []
  | v :: l => render v :: renderItems l

def renderMembers : List (Str × Json F) → List (Str × Str)
  | [] => []
  | (k, v) :: l => (k, render v) :: renderMembers l

end

end Render

section Parse

variable {F : Type} [FloatText F]

/-- White space between tokens. -/
def isSpace (c : CodePoint) : Bool := c.val = 32 || c.val = 9 || c.val = 10 || c.val = 13

def skipSpace (s : Str) : Str := s.dropWhile isSpace

/-- What a two-character escape stands for. -/
def unescape (e : CodePoint) : Option CodePoint :=
  if e = ofChar '"' ∨ e = ofChar '\\' ∨ e = ofChar '/' then some e
  else if e = ofChar 'b' then some 8
  else if e = ofChar 't' then some 9
  else if e = ofChar 'n' then some 10
  else if e = ofChar 'f' then some 12
  else if e = ofChar 'r' then some 13
  else none

/-- The code unit of four hexadecimal digits. -/
def readUnit (a b c d : CodePoint) : Option CodePoint := do
  let n ← readDigits 16 hexVal [a, b, c, d]
  if h : n < 0x110000 then some ⟨n, h⟩ else none

/-- A string after its opening quote: its code units, with those that were spelled `\uXXXX`
marked, and the text after it. -/
def readUnits : Str → Option (List (Bool × CodePoint) × Str)
  | [] => none
  | c :: t =>
    if c = ofChar '"' then some ([], t)
    else if c = ofChar '\\' then
      match t with
      | [] => none
      | e :: t =>
        if e = ofChar 'u' then
          match t with
          | a :: b :: c :: d :: t => do
            let u ← readUnit a b c d
            let (us, r) ← readUnits t
            return ((true, u) :: us, r)
          | _ => none
        else do
          let x ← unescape e
          let (us, r) ← readUnits t
          return ((false, x) :: us, r)
    else if c.val < 32 then none
    else do
      let (us, r) ← readUnits t
      return ((false, c) :: us, r)

def isHigh (c : CodePoint) : Bool := 0xD800 ≤ c.val && c.val ≤ 0xDBFF

def isLow (c : CodePoint) : Bool := 0xDC00 ≤ c.val && c.val ≤ 0xDFFF

/-- The code point of a surrogate pair. -/
def pair (h l : CodePoint) : CodePoint :=
  Fin.ofNat 0x110000 (0x10000 + (h.val - 0xD800) * 1024 + (l.val - 0xDC00))

/-- Joins the surrogate pairs that were spelled `\uXXXX\uXXXX`. -/
def joinPairs : List (Bool × CodePoint) → Str
  | [] => []
  | [u] => [u.2]
  | u :: v :: us =>
    if u.1 && v.1 && isHigh u.2 && isLow v.2 then pair u.2 v.2 :: joinPairs us
    else u.2 :: joinPairs (v :: us)

def readString (s : Str) : Option (Str × Str) :=
  (readUnits s).map fun (us, r) => (joinPairs us, r)

/-- An integer of the number grammar. -/
def readInt (s : Str) : Option ℤ :=
  (readNat (dropSign s)).map fun n : ℕ => if s.head? = some (ofChar '-') then -(n : ℤ) else n

def readNumber (s : Str) : Option (Json F) :=
  (numberForm s).bind fun isFloat =>
    if isFloat then some (.float (FloatText.ofText s)) else (readInt s).map .int

/-- Removes a keyword. -/
def dropKeyword (k : Str) (s : Str) : Option Str :=
  if k.isPrefixOf s then some (s.drop k.length) else none

/-- The keywords and what they stand for. -/
def keywords : List (Str × Json F) :=
  [(lit "null", .null), (lit "true", .bool true), (lit "false", .bool false),
    (lit "NaN", .float .nan), (lit "Infinity", .float .infinity),
    (lit "-Infinity", .float .negInfinity)]

/-- A value that is no string and no container. -/
def readAtom (s : Str) : Option (Json F × Str) :=
  match keywords.findSome? fun (k, v) => (dropKeyword k s).map (v, ·) with
  | some r => some r
  | none => (readNumber (s.takeWhile isNumber)).map (·, s.dropWhile isNumber)

/-- A key with its colon, and the text of its value. -/
def readKey : Str → Option (Str × Str)
  | [] => none
  | q :: t =>
    if q ≠ ofChar '"' then none
    else (readString t).bind fun (k, r) =>
      match skipSpace r with
      | [] => none
      | d :: r => if d = ofChar ':' then some (k, skipSpace r) else none

mutual

/-- A value and the text after it, given fuel for each code point twice. -/
def readValue : ℕ → Str → Option (Json F × Str)
  | 0, _ => none
  | _, [] => none
  | n + 1, c :: t =>
    if c = ofChar '"' then (readString t).map fun (s, r) => (.str s, r)
    else if c = ofChar '[' then
      match skipSpace t with
      | [] => none
      | d :: r =>
        if d = ofChar ']' then some (.arr [], r)
        else (readItems n (d :: r)).map fun (l, r) => (.arr l, r)
    else if c = ofChar '{' then
      match skipSpace t with
      | [] => none
      | d :: r =>
        if d = ofChar '}' then some (.obj [], r)
        else (readMembers n (d :: r)).map fun (l, r) => (.obj (Assoc.ofList l), r)
    else readAtom (c :: t)

/-- The items of an array up to its bracket. -/
def readItems : ℕ → Str → Option (List (Json F) × Str)
  | 0, _ => none
  | n + 1, s => do
    let (v, r) ← readValue n s
    match skipSpace r with
    | [] => none
    | d :: r =>
      if d = ofChar ']' then some ([v], r)
      else if d = ofChar ',' then (readItems n (skipSpace r)).map fun (l, r) => (v :: l, r)
      else none

/-- The members of an object up to its brace. -/
def readMembers : ℕ → Str → Option (List (Str × Json F) × Str)
  | 0, _ => none
  | n + 1, s => do
    let (k, r) ← readKey s
    let (v, r) ← readValue n r
    match skipSpace r with
    | [] => none
    | d :: r =>
      if d = ofChar '}' then some ([(k, v)], r)
      else if d = ofChar ',' then (readMembers n (skipSpace r)).map fun (l, r) => ((k, v) :: l, r)
      else none

end

/-- `json.loads`. -/
def parse (s : Str) : Option (Json F) :=
  (readValue (2 * s.length + 1) (skipSpace s)).bind fun (v, r) =>
    if skipSpace r = [] then some v else none

end Parse

end Json
