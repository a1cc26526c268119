import AsetPlatform.Library.Text
import AsetPlatform.ScreenQL.Catalog

/-!
# The ScreenQL tokenizer

`tokenize` joins the lines of a query with AND and cuts the text into tokens. The alternatives of
the token expression start with different characters, so that each is read by a scanner of its own
without backtracking; each returns what it read and the text that follows.
-/

set_option autoImplicit false

namespace AsetPlatform.ScreenQL

open AsetPlatform.Library AsetPlatform.Library.Sql

/-- `TokenType` with the value of the token. -/
inductive TokenKind where
  | field (word : List Char)
  | op (o : Comparison)
  | valueNum (n : NumberLit)
  | valueStr (s : List Char)
  | and | or | lparen | rparen | contains | eof
  deriving DecidableEq, Repr

structure Token where
  kind : TokenKind
  pos : Nat
  deriving DecidableEq, Repr

/-- The errors of the tokenizer and of the parser, one for each `raise`. -/
inductive ScreenQLError where
  | emptyQuery
  | unexpectedCharacter (pos : Nat) (c : Char)
  | unexpectedToken (pos : Nat) (kind : TokenKind)
  | expectedClosing (pos : Nat)
  | tooManyConditions
  | expectedField (pos : Nat)
  | unknownField (word : List Char) (suggestion : Option String) (pos : Nat)
  | expectedOperator (field : String) (pos : Nat)
  | badOperator (o : Operator) (field : String) (type : FieldType) (pos : Nat)
  | expectedValue (field : String) (o : Operator) (type : FieldType) (pos : Nat)
  deriving DecidableEq, Repr

/-- `MAX_CONDITIONS`. -/
def maxConditions : Nat := 20

section Messages

variable (floatText : ℚ → String)

def NumberLit.text : NumberLit → String
  | int n => toString n
  | float q => floatText q

/-- The value of a token as a message prints it. -/
def TokenKind.text : TokenKind → String
  | field word => String.ofList word
  | op o => o.text
  | valueNum n => n.text floatText
  | valueStr s => String.ofList s
  | and => "AND"
  | or => "OR"
  | lparen => "("
  | rparen => ")"
  | contains => "CONTAINS"
  | eof => "None"

namespace ScreenQLError

/-- The text of an error. -/
def message : ScreenQLError → String
  | emptyQuery => "Query cannot be empty"
  | unexpectedCharacter pos c =>
      "Unexpected character at position " ++ toString pos ++ ": '" ++ String.singleton c ++ "'"
  | unexpectedToken pos kind =>
      "Unexpected token at position " ++ toString pos ++ ": '" ++ kind.text floatText ++ "'"
  | expectedClosing pos => "Expected ')' at position " ++ toString pos
  | tooManyConditions => "Maximum " ++ toString maxConditions ++ " conditions per query"
  | expectedField pos => "Expected field name at position " ++ toString pos
  | unknownField word suggestion _ =>
      "Unknown field: " ++ String.ofList word ++
        (match suggestion with
          | some s => ". Did you mean: " ++ s ++ "?"
          | none => "")
  | expectedOperator field pos =>
      "Expected operator after '" ++ field ++ "' at position " ++ toString pos
  | badOperator o field .number _ =>
      "Cannot use " ++ o.text ++ " with number field '" ++ field ++ "'"
  | badOperator o field .text _ =>
      "Cannot use " ++ o.text ++ " with text field '" ++ field ++ "'. Use = or !="
  | badOperator _ field .array _ => "Use CONTAINS with array field '" ++ field ++ "'"
  | expectedValue field o .number pos =>
      "Expected number after '" ++ field ++ " " ++ o.text ++ "' at position " ++ toString pos
  | expectedValue field o _ pos =>
      "Expected quoted string after '" ++ field ++ " " ++ o.text ++ "' at position " ++
        toString pos

/-- The position an error carries. -/
def pos : ScreenQLError → Int
  | emptyQuery => -1
  | tooManyConditions => -1
  | unexpectedCharacter pos _ => pos
  | unexpectedToken pos _ => pos
  | expectedClosing pos => pos
  | expectedField pos => pos
  | unknownField _ _ pos => pos
  | expectedOperator _ pos => pos
  | badOperator _ _ _ pos => pos
  | expectedValue _ _ _ pos => pos

end ScreenQLError

end Messages

variable (T : CharTables)

/-! ## Lines -/

/-- The line boundaries of `str.splitlines`. -/
def isLineBreak (c : Char) : Bool :=
  c.toNat ∈ [0x0a, 0x0b, 0x0c, 0x0d, 0x1c, 0x1d, 0x1e, 0x85, 0x2028, 0x2029]

/-- The stripped lines of a query that are not blank. -/
def queryLines (text : List Char) : List (List Char) :=
  -- the empty line between the two characters of a CRLF is dropped as a blank one
  ((text.splitOnP isLineBreak).map (strip T)).filter (· ≠ [])

/-- The line starts with AND or OR and a blank. -/
def startsWithConnective (ln : List Char) : Bool :=
  "AND ".toList.isPrefixOf (T.upper ln) || "OR ".toList.isPrefixOf (T.upper ln)

/-- The lines with AND before each one that does not start with a connective, the first apart. -/
def withConnectives : List (List Char) → List (List Char)
  | [] => []
  | ln :: lns =>
      ln :: lns.flatMap fun l => if startsWithConnective T l then [l] else ["AND".toList, l]

/-- The one line the tokens are read from. -/
def normalizedText (text : List Char) : List Char :=
  [' '].intercalate (withConnectives T (queryLines T text))

/-! ## The alternatives of the token expression -/

/-- `>=|<=|!=|>|<|=`. -/
def scanOp : List Char → Option (TokenKind × List Char)
  | '>' :: '=' :: rest => some (.op .ge, rest)
  | '<' :: '=' :: rest => some (.op .le, rest)
  | '!' :: '=' :: rest => some (.op .ne, rest)
  | '>' :: rest => some (.op .gt, rest)
  | '<' :: rest => some (.op .lt, rest)
  | '=' :: rest => some (.op .eq, rest)
  | _ => none

/-- The text up to the closing quote, escapes included, and what follows the quote. -/
def scanQuoted : List Char → Option (List Char × List Char)
  | [] => none
  | '"' :: rest => some ([], rest)
  | '\\' :: c :: rest =>
      -- the dot of the expression matches no newline
      if c = '\n' then none
      else (scanQuoted rest).map fun r => ('\\' :: c :: r.1, r.2)
  | ['\\'] => none
  | c :: rest => (scanQuoted rest).map fun r => (c :: r.1, r.2)

/-- `raw.replace('\\"', '"')`. -/
def unescapeQuotes : List Char → List Char
  | '\\' :: '"' :: rest => '"' :: unescapeQuotes rest
  | c :: rest => c :: unescapeQuotes rest
  | [] => []

/-- `"(?:[^"\\]|\\.)*"`. -/
def scanStr : List Char → Option (TokenKind × List Char)
  | '"' :: rest => (scanQuoted rest).map fun r => (.valueStr (unescapeQuotes r.1), r.2)
  | _ => none

def digitsValue (ds : List Char) : Nat := ds.foldl (fun n d => 10 * n + T.digitValue d) 0

/-- `-?\d+(?:\.\d+)?`: a float when there is a point, an int otherwise. -/
def scanNum (text : List Char) : Option (TokenKind × List Char) :=
  -- the sign belongs to the literal
  let negative := text.head? = some '-'
  let unsigned := if negative then text.tail else text
  let whole := unsigned.takeWhile T.isDigit
  let rest := unsigned.dropWhile T.isDigit
  let fraction := if rest.head? = some '.' then rest.tail.takeWhile T.isDigit else []
  let signed := fun q : ℚ => if negative then -q else q
  -- no digit before the point, or none after it
  if whole = [] then none
  else if fraction = [] then
    let n : Int := digitsValue T whole
    some (.valueNum (.int (if negative then -n else n)), rest)
  else
    some (.valueNum (.float (signed (digitsValue T (whole ++ fraction) / 10 ^ fraction.length))),
      rest.tail.dropWhile T.isDigit)

def scanParen : List Char → Option (TokenKind × List Char)
  | '(' :: rest => some (.lparen, rest)
  | ')' :: rest => some (.rparen, rest)
  | _ => none

/-- The token of a word: a keyword in any case, or a field. -/
def wordToken (word : List Char) : TokenKind :=
  let upper := T.upper word
  -- keywords are recognised in any case and are no fields
  if upper = "AND".toList then .and
  else if upper = "OR".toList then .or
  else if upper = "CONTAINS".toList then .contains
  else .field word

/-- `[A-Za-z_][A-Za-z0-9_]*`. -/
def scanWord : List Char → Option (TokenKind × List Char)
  | c :: rest =>
      let isWordChar := fun d : Char => d.isAlphanum || d == '_'
      if c.isAlpha || c == '_' then
        some (wordToken T (c :: rest.takeWhile isWordChar), rest.dropWhile isWordChar)
      else none
  | [] => none

/-- A match of `_TOKEN_RE` at the start of a text. -/
def matchToken (text : List Char) : Option (TokenKind × List Char) :=
  let start := text.dropWhile T.isSpace
  -- white space around the token belongs to the match
  let found := scanOp start <|> scanStr start <|> scanNum T start <|> scanParen start <|>
    scanWord T start
  found.map fun r => (r.1, r.2.dropWhile T.isSpace)

/-! ## Every match reads something -/

theorem scanOp_length {text rest : List Char} {k : TokenKind} (h : scanOp text = some (k, rest)) :
    rest.length < text.length := by
  simp only [scanOp] at h
  split at h
  case h_7 => cases h
  all_goals
    cases h
    simp only [List.length_cons]
    omega

theorem scanQuoted_length {text : List Char} {r : List Char × List Char}
    (h : scanQuoted text = some r) : r.2.length < text.length := by
  induction text using scanQuoted.induct generalizing r with
  | case1 => simp [scanQuoted] at h
  | case2 rest =>
      simp only [scanQuoted, Option.some.injEq] at h
      subst h
      simp
  | case3 rest => simp [scanQuoted] at h
  | case4 c rest hc ih =>
      simp only [scanQuoted, hc, if_false, Option.map_eq_some_iff] at h
      obtain ⟨q, hq, rfl⟩ := h
      have hlt := ih hq
      simp only [List.length_cons]
      omega
  | case5 => simp [scanQuoted] at h
  | case6 c rest h₁ h₂ h₃ ih =>
      rw [scanQuoted] at h
      · obtain ⟨q, hq, rfl⟩ := Option.map_eq_some_iff.1 h
        have hlt := ih hq
        simp only [List.length_cons]
        omega
      · exact h₁
      · exact h₂
      · exact h₃

theorem scanStr_length {text rest : List Char} {k : TokenKind}
    (h : scanStr text = some (k, rest)) : rest.length < text.length := by
  unfold scanStr at h
  split at h
  · obtain ⟨q, hq, hr⟩ := Option.map_eq_some_iff.1 h
    have hlt := scanQuoted_length hq
    have hrest : q.2 = rest := congrArg Prod.snd hr
    rw [← hrest]
    exact Nat.lt_succ_of_lt hlt
  · cases h

theorem length_dropWhile_le {p : Char → Bool} (text : List Char) :
    (text.dropWhile p).length ≤ text.length := (List.dropWhile_sublist p).length_le

theorem length_dropWhile_lt {p : Char → Bool} {text : List Char} (h : text.takeWhile p ≠ []) :
    (text.dropWhile p).length < text.length := by
  have hsplit := congrArg List.length (List.takeWhile_append_dropWhile (p := p) (l := text))
  have hpos := List.length_pos_of_ne_nil h
  simp only [List.length_append] at hsplit
  omega

theorem scanNum_length {text rest : List Char} {k : TokenKind}
    (h : scanNum T text = some (k, rest)) : rest.length < text.length := by
  simp only [scanNum] at h
  generalize hu : (if text.head? = some '-' then text.tail else text) = unsigned at h
  generalize (if (unsigned.dropWhile T.isDigit).head? = some '.' then
    (unsigned.dropWhile T.isDigit).tail.takeWhile T.isDigit else []) = fraction at h
  have hunsigned : unsigned.length ≤ text.length := by
    rw [← hu]
    split
    · exact List.length_tail ▸ Nat.sub_le _ _
    · exact Nat.le_refl _
  split at h
  · cases h
  · rename_i hwhole
    have hrest := length_dropWhile_lt hwhole
    by_cases hfraction : fraction = []
    · simp only [hfraction, if_true, Option.some.injEq, Prod.mk.injEq] at h
      rw [← h.2]
      omega
    · simp only [hfraction, if_false, Option.some.injEq, Prod.mk.injEq] at h
      have htail := length_dropWhile_le (p := T.isDigit) (unsigned.dropWhile T.isDigit).tail
      rw [← h.2]
      simp only [List.length_tail] at htail
      omega

theorem scanParen_length {text rest : List Char} {k : TokenKind}
    (h : scanParen text = some (k, rest)) : rest.length < text.length := by
  unfold scanParen at h
  split at h <;> simp_all

theorem scanWord_length {text rest : List Char} {k : TokenKind}
    (h : scanWord T text = some (k, rest)) : rest.length < text.length := by
  unfold scanWord at h
  split at h
  · rename_i c cs
    simp only at h
    split at h
    · simp only [Option.some.injEq, Prod.mk.injEq] at h
      have hle := length_dropWhile_le (p := fun d => d.isAlphanum || d == '_') cs
      rw [← h.2]
      simp only [List.length_cons]
      omega
    · cases h
  · cases h

theorem matchToken_length {text rest : List Char} {k : TokenKind}
    (h : matchToken T text = some (k, rest)) : rest.length < text.length := by
  simp only [matchToken, Option.map_eq_some_iff] at h
  obtain ⟨⟨k', tail⟩, hfound, hr⟩ := h
  generalize hs : text.dropWhile T.isSpace = start at hfound
  have hstart : start.length ≤ text.length := hs ▸ length_dropWhile_le text
  have htail : tail.length < start.length := by
    simp only [Option.orElse_eq_orElse, Option.orElse_eq_or, Option.or_eq_some_iff] at hfound
    rcases hfound with h | ⟨-, h | ⟨-, h | ⟨-, h | ⟨-, h⟩⟩⟩⟩
    · exact scanOp_length h
    · exact scanStr_length h
    · exact scanNum_length T h
    · exact scanParen_length h
    · exact scanWord_length T h
  have hrest : tail.dropWhile T.isSpace = rest := congrArg Prod.snd hr
  have hle := length_dropWhile_le (p := T.isSpace) tail
  rw [hrest] at hle
  omega

/-! ## Tokens -/

/-- The tokens from a position on, the end of the text among them. -/
def tokensFrom (pos : Nat) (text : List Char) : Except ScreenQLError (List Token) :=
  match text with
  | [] => .ok [⟨.eof, pos⟩]
  | c :: cs =>
      match _hmatch : matchToken T (c :: cs) with
      | none => .error (.unexpectedCharacter pos c)
      | some (kind, rest) =>
          -- a token stands where its match starts, white space before it included
          (tokensFrom (pos + ((c :: cs).length - rest.length)) rest).map (⟨kind, pos⟩ :: ·)
termination_by text.length
decreasing_by exact matchToken_length T ‹_›

/-- `tokenize`. -/
def tokenize (query : List Char) : Except ScreenQLError (List Token) :=
  let text := strip T query
  if text = [] then .error .emptyQuery else tokensFrom T 0 (normalizedText T text)

example : tokenize .ascii "pe_ratio < 15.5\n sector = \"A \\\"B\"".toList =
    .ok [⟨.field "pe_ratio".toList, 0⟩, ⟨.op .lt, 9⟩, ⟨.valueNum (.float (31 / 2)), 11⟩,
      ⟨.and, 16⟩, ⟨.field "sector".toList, 20⟩, ⟨.op .eq, 27⟩,
      ⟨.valueStr "A \"B".toList, 29⟩, ⟨.eof, 36⟩] := by decide +kernel

end AsetPlatform.ScreenQL
