import Mathlib.Data.List.Basic
import Mathlib.Data.UInt

/-!
# The tokens of an SQL statement

A tokenizer for statements of words, punctuation and string literals. A literal stands between two
quotes, and two quotes in a row inside one are a quote of its value. Numbers, comments, quoted names
and blob literals have no token here, and a text that has one outside its literals has no tokens.

The tokenizer runs over a text in pieces (`lexRun_append`), and a value without a quote that is put
between two quotes is one literal (`lexRun_value`).
-/

set_option autoImplicit false
set_option relaxedAutoImplicit false

namespace NovaIde.Foundation

/-- The character that begins and ends a literal. -/
def sqlQuote : UInt8 := 0x27

/-- A token of a statement. -/
inductive SqlToken
  | word (text : List UInt8)
  | punctuation (byte : UInt8)
  | literal (value : List UInt8)
deriving DecidableEq, Repr

/-- Where the tokenizer stands: behind a token, in a word, in a literal, or behind a quote in a
literal, which ends it unless another quote follows. -/
inductive SqlPosition
  | between
  | inWord (text : List UInt8)
  | inLiteral (value : List UInt8)
  | behindQuote (value : List UInt8)
deriving DecidableEq, Repr

def isSqlBlank (byte : UInt8) : Bool :=
  byte = 0x20 || byte = 0x09 || byte = 0x0a || byte = 0x0c || byte = 0x0d

def isSqlLetter (byte : UInt8) : Bool :=
  ('A'.toUInt8 ≤ byte && byte ≤ 'Z'.toUInt8) || ('a'.toUInt8 ≤ byte && byte ≤ 'z'.toUInt8) ||
    byte = '_'.toUInt8

def isSqlPunctuation (byte : UInt8) : Bool :=
  byte = '*'.toUInt8 || byte = '='.toUInt8 || byte = '('.toUInt8 || byte = ')'.toUInt8 ||
    byte = ','.toUInt8 || byte = ';'.toUInt8

/-- The first character of a token, or a blank. -/
def lexStart (byte : UInt8) : Option (List SqlToken × SqlPosition) :=
  if byte = sqlQuote then some ([], .inLiteral [])
  else if isSqlBlank byte then some ([], .between)
  else if isSqlLetter byte then some ([], .inWord [byte])
  else if isSqlPunctuation byte then some ([.punctuation byte], .between)
  else none

/-- The next character of a text: the tokens that end with it. -/
def lexByte : SqlPosition → UInt8 → Option (List SqlToken × SqlPosition)
  | .between, byte => lexStart byte
  | .inWord text, byte =>
    if isSqlLetter byte then some ([], .inWord (text ++ [byte]))
    else if byte = sqlQuote then none
    else (lexStart byte).map fun next ↦ (.word text :: next.1, next.2)
  | .inLiteral value, byte =>
    if byte = sqlQuote then some ([], .behindQuote value)
    else some ([], .inLiteral (value ++ [byte]))
  | .behindQuote value, byte =>
    if byte = sqlQuote then some ([], .inLiteral (value ++ [sqlQuote]))
    else (lexStart byte).map fun next ↦ (.literal value :: next.1, next.2)

/-- The tokens that end within a text, and where its end stands. -/
def lexRun : SqlPosition → List UInt8 → Option (List SqlToken × SqlPosition)
  | position, [] => some ([], position)
  | position, byte :: rest =>
    (lexByte position byte).bind fun next ↦
      (lexRun next.2 rest).map fun last ↦ (next.1 ++ last.1, last.2)

/-- The tokens of a statement. A literal that is not closed is no token. -/
def sqlTokens (text : List UInt8) : Option (List SqlToken) :=
  (lexRun .between text).bind fun last ↦
    match last.2 with
    | .between => some last.1
    | .inWord text => some (last.1 ++ [.word text])
    | .behindQuote value => some (last.1 ++ [.literal value])
    | .inLiteral _ => none

/-- The values of the literals among tokens. -/
def literals (tokens : List SqlToken) : List (List UInt8) :=
  tokens.filterMap fun
    | .literal value => some value
    | _ => none

section Lexing

variable {position middle last : SqlPosition} {first second value rest : List UInt8}
  {tokens others : List SqlToken}

/-- The tokens of two pieces of a text, one after the other. -/
theorem lexRun_append (hfirst : lexRun position first = some (tokens, middle))
    (hsecond : lexRun middle second = some (others, last)) :
    lexRun position (first ++ second) = some (tokens ++ others, last) := by
  induction first generalizing position tokens with
  | nil =>
    obtain ⟨rfl, rfl⟩ : tokens = [] ∧ middle = position := by simpa [lexRun, eq_comm] using hfirst
    exact hsecond
  | cons byte first ih =>
    simp only [lexRun, Option.bind_eq_some_iff, Option.map_eq_some_iff] at hfirst
    obtain ⟨next, hnext, ⟨ended, reached⟩, hrun, hequal⟩ := hfirst
    obtain ⟨rfl, rfl⟩ := Prod.mk.inj hequal
    simp only [List.cons_append, lexRun, hnext, Option.bind_some, ih hrun, Option.map_some,
      List.append_assoc]

/-- In a literal, characters other than the quote belong to its value. -/
theorem lexRun_inLiteral (hquote : sqlQuote ∉ second) :
    lexRun (.inLiteral first) second = some ([], .inLiteral (first ++ second)) := by
  induction second generalizing first with
  | nil => rw [lexRun, List.append_nil]
  | cons byte second ih =>
    have hbyte : byte ≠ sqlQuote := fun h ↦ hquote (by simp [h])
    simp only [lexRun, lexByte, if_neg hbyte, Option.bind_some,
      ih fun h ↦ hquote (List.mem_cons_of_mem _ h), Option.map_some, List.nil_append,
      List.append_assoc, List.singleton_append]

/-- A value without a quote, behind the quote that begins a literal, is the value of the literal. -/
theorem lexRun_value (hquote : sqlQuote ∉ value)
    (hrest : lexRun (.inLiteral value) rest = some (tokens, last)) :
    lexRun (.inLiteral []) (value ++ rest) = some (tokens, last) :=
  lexRun_append (lexRun_inLiteral hquote) hrest

/-- A text that ends behind a token has the tokens that end within it. -/
theorem sqlTokens_of_lexRun (hrun : lexRun .between first = some (tokens, .between)) :
    sqlTokens first = some tokens := by
  rw [sqlTokens, hrun, Option.bind_some]

end Lexing

end NovaIde.Foundation
