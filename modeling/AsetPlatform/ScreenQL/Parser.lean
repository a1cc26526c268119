import AsetPlatform.ScreenQL.Tokenizer

/-!
# The ScreenQL parser

The recursive descent over the tokens. A condition carries the proofs that its field is in the
catalog and that its operator and value are allowed for the field's type, so that every tree is one
the parser may accept. The descent has a bound on its depth; `parse_ne_outOfDepth` is that the bound
`parse` starts from is never reached.
-/

set_option autoImplicit false

namespace AsetPlatform.ScreenQL

open AsetPlatform.Library AsetPlatform.Library.Sql

/-! ## Trees -/

structure Condition where
  fieldName : String
  operator : Operator
  value : Literal
  fieldDef : FieldDef
  known : fieldCatalog.get? fieldName = some fieldDef
  allowed : operator ∈ fieldDef.type.operators
  fits : value.fits fieldDef.type = true
  deriving DecidableEq

inductive Connective where
  | and
  | or
  deriving DecidableEq, Repr

def Connective.text : Connective → String
  | and => "AND"
  | or => "OR"

inductive ASTNode where
  | condition (c : Condition)
  | binaryOp (op : Connective) (left right : ASTNode)
  deriving DecidableEq

/-! ## The parser -/

/-- The tokens still to read and the conditions counted so far. -/
structure Parser where
  rest : List Token
  conditionCount : Nat
  deriving DecidableEq, Repr

/-- How parsing stops without a tree: with an error of the query, by reading past the last token, or
at the bound on the depth. -/
inductive Stop where
  | error (e : ScreenQLError)
  | pastEnd
  | outOfDepth
  deriving DecidableEq, Repr

namespace Parser

/-- `_peek`. -/
def peek (p : Parser) : Except Stop Token :=
  match p.rest with
  | [] => .error .pastEnd
  | t :: _ => .ok t

/-- The parser after `_advance`, which follows a `_peek`. -/
def advance (p : Parser) : Parser := { p with rest := p.rest.tail }

/-- Whether the next token has this kind. -/
def at? (p : Parser) (k : TokenKind) : Except Stop Bool := p.peek.map fun t => t.kind = k

/-- The operator of a condition. -/
def parseOperator (p : Parser) (field : String) : Except Stop (Operator × Parser) := do
  let t ← p.peek
  -- `CONTAINS` is an operator token of its own
  match t.kind with
  | .contains => return (.contains, p.advance)
  | .op o => return (.compare o, p.advance)
  | _ => throw (.error (.expectedOperator field t.pos))

/-- The value of a condition on a field of the given type. -/
def parseValue (p : Parser) (field : String) (o : Operator) (type : FieldType) :
    Except Stop ({v : Literal // v.fits type = true} × Parser) :=
  p.peek >>= fun t =>
    match type, t.kind with
    | .number, .valueNum n => .ok (⟨.number n, rfl⟩, p.advance)
    | .text, .valueStr s => .ok (⟨.text (String.ofList s), rfl⟩, p.advance)
    | .array, .valueStr s => .ok (⟨.text (String.ofList s), rfl⟩, p.advance)
    | type, _ => .error (.error (.expectedValue field o type t.pos))

variable (T : CharTables)

/-- The part of `_parse_condition` after a field of the catalog. -/
def parseAfterField (p : Parser) (name : String) (fd : FieldDef)
    (hknown : fieldCatalog.get? name = some fd) : Except Stop (Condition × Parser) := do
  let opToken ← p.peek
  let (o, p) ← p.parseOperator name
  -- the operator is consumed before it is checked
  if hallowed : o ∈ fd.type.operators then
    let (v, p) ← p.parseValue name o fd.type
    return (⟨name, o, v.1, fd, hknown, hallowed, v.2⟩, p)
  else throw (.error (.badOperator o name fd.type opToken.pos))

/-- `_parse_condition`. The count goes up before the first token is read. -/
def parseCondition (p : Parser) : Except Stop (Condition × Parser) :=
  let p := { p with conditionCount := p.conditionCount + 1 }
  if p.conditionCount > maxConditions then .error (.error .tooManyConditions)
  else do
    let t ← p.peek
    match t.kind with
    | .field word =>
        match hknown : fieldCatalog.get? (String.ofList (T.lower word)) with
        | some fd => p.advance.parseAfterField (String.ofList (T.lower word)) fd hknown
        -- the suggestion is looked up in lower case, the message has the word as it is written
        | none => throw (.error (.unknownField word (suggestField (T.lower word)) t.pos))
    | _ => throw (.error (.expectedField t.pos))

mutual

/-- `_parse_or`. -/
def parseOr : Nat → Parser → Except Stop (ASTNode × Parser)
  | 0, _ => .error .outOfDepth
  | depth + 1, p => do
      let (left, p) ← parseAnd depth p
      orLoop depth left p

/-- The loop of `_parse_or`. -/
def orLoop : Nat → ASTNode → Parser → Except Stop (ASTNode × Parser)
  | 0, _, _ => .error .outOfDepth
  | depth + 1, left, p => do
      -- left-associative: the tree so far becomes the left side
      if ← p.at? .or then
        let (right, p) ← parseAnd depth p.advance
        orLoop depth (.binaryOp .or left right) p
      else return (left, p)

/-- `_parse_and`. -/
def parseAnd : Nat → Parser → Except Stop (ASTNode × Parser)
  | 0, _ => .error .outOfDepth
  | depth + 1, p => do
      let (left, p) ← parseAtom depth p
      andLoop depth left p

/-- The loop of `_parse_and`. -/
def andLoop : Nat → ASTNode → Parser → Except Stop (ASTNode × Parser)
  | 0, _, _ => .error .outOfDepth
  | depth + 1, left, p => do
      if ← p.at? .and then
        let (right, p) ← parseAtom depth p.advance
        andLoop depth (.binaryOp .and left right) p
      else return (left, p)

/-- `_parse_atom`. -/
def parseAtom : Nat → Parser → Except Stop (ASTNode × Parser)
  | 0, _ => .error .outOfDepth
  | depth + 1, p => do
      if ← p.at? .lparen then
        let (node, p) ← parseOr depth p.advance
        let t ← p.peek
        if t.kind = .rparen then return (node, p.advance)
        else throw (.error (.expectedClosing t.pos))
      else
        let (c, p) ← p.parseCondition T
        return (.condition c, p)

end

end Parser

variable (T : CharTables)

/-- `Parser.parse`. Four levels for each token are never used up. -/
def parse (tokens : List Token) : Except Stop ASTNode := do
  let (node, p) ← Parser.parseOr T (4 * tokens.length + 3) ⟨tokens, 0⟩
  let t ← p.peek
  if t.kind = .eof then return node
  else throw (.error (.unexpectedToken t.pos t.kind))

/-- `parse_query`. -/
def parseQuery (query : List Char) : Except Stop ASTNode :=
  match tokenize T query with
  | .error e => .error (.error e)
  | .ok tokens => parse T tokens

/-! ## The depth suffices -/

namespace Parser

/-- The outcome is not the bound on the depth, and a success has read at least `n` tokens. -/
def Finishes {α : Type} (n : Nat) (p : Parser) (r : Except Stop (α × Parser)) : Prop :=
  r ≠ .error .outOfDepth ∧ ∀ a q, r = .ok (a, q) → q.rest.length + n ≤ p.rest.length

section Finishes

variable {α β : Type} {m n : Nat} {p q : Parser}

theorem finishes_ok {a : α} (h : q.rest.length + n ≤ p.rest.length) :
    Finishes n p (.ok (a, q)) := by
  constructor
  · intro h
    cases h
  · intro b q' hq
    cases hq
    exact h

theorem finishes_error {e : ScreenQLError} :
    Finishes n p (.error (.error e) : Except Stop (α × Parser)) := by
  constructor
  · intro h
    cases h
  · intro a q h
    cases h

/-- What follows may read on from where the first part stopped. -/
theorem Finishes.bind {r : Except Stop (α × Parser)} {f : α × Parser → Except Stop (β × Parser)}
    (hr : Finishes m p r)
    (hf : ∀ a q, q.rest.length + m ≤ p.rest.length → Finishes n q (f (a, q))) :
    Finishes (m + n) p (r >>= f) := by
  cases r with
  | error stop =>
      constructor
      · intro h
        exact hr.1 (congrArg Except.error (Except.error.inj h))
      · intro a q h
        cases h
  | ok x =>
      have hread := hr.2 x.1 x.2 rfl
      have hrest := hf x.1 x.2 hread
      constructor
      · exact hrest.1
      · intro b q h
        have := hrest.2 b q h
        omega

theorem Finishes.mono {r : Except Stop (α × Parser)} (h : Finishes m p r) (hn : n ≤ m) :
    Finishes n p r := by
  constructor
  · exact h.1
  · intro a q hq
    have := h.2 a q hq
    omega

theorem Finishes.of_le {r : Except Stop (α × Parser)} (h : Finishes n q r)
    (hle : q.rest.length ≤ p.rest.length) : Finishes n p r := by
  constructor
  · exact h.1
  · intro a p' hp'
    have := h.2 a p' hp'
    omega

theorem finishes_peek {f : Token → Except Stop (α × Parser)}
    (hf : ∀ t, p.advance.rest.length + 1 = p.rest.length → Finishes n p (f t)) :
    Finishes n p (p.peek >>= f) := by
  simp only [peek]
  split
  · constructor
    · intro h
      cases h
    · intro a q h
      cases h
  · rename_i t ts hrest
    apply hf
    simp only [advance, hrest, List.tail_cons, List.length_cons]

theorem finishes_at {k : TokenKind} {f : Bool → Except Stop (α × Parser)}
    (htrue : p.advance.rest.length + 1 = p.rest.length → Finishes n p (f true))
    (hfalse : Finishes n p (f false)) : Finishes n p (p.at? k >>= f) := by
  have hpeek : (p.at? k >>= f) = p.peek >>= fun t => f (decide (t.kind = k)) := by
    simp only [at?]
    cases p.peek <;> rfl
  rw [hpeek]
  apply finishes_peek
  intro t hlen
  cases decide (t.kind = k) with
  | true => exact htrue hlen
  | false => exact hfalse

end Finishes

theorem parseOperator_finishes (p : Parser) (field : String) :
    Finishes 1 p (p.parseOperator field) := by
  apply finishes_peek
  intro t hlen
  split
  · exact finishes_ok (Nat.le_of_eq hlen)
  · exact finishes_ok (Nat.le_of_eq hlen)
  · exact finishes_error

theorem parseValue_finishes (p : Parser) (field : String) (o : Operator) (type : FieldType) :
    Finishes 1 p (p.parseValue field o type) := by
  apply finishes_peek
  intro t hlen
  generalize t.kind = kind
  cases type <;> cases kind <;>
    first | exact finishes_ok (Nat.le_of_eq hlen) | exact finishes_error

theorem parseAfterField_finishes (p : Parser) (name : String) (fd : FieldDef)
    (hknown : fieldCatalog.get? name = some fd) :
    Finishes 1 p (p.parseAfterField name fd hknown) := by
  apply finishes_peek
  intro opToken _
  apply Finishes.bind (n := 0) (p.parseOperator_finishes name)
  intro o q _
  show Finishes 0 q (dite _ _ _)
  split
  · apply Finishes.mono _ (Nat.zero_le 1)
    apply Finishes.bind (n := 0) (q.parseValue_finishes name o fd.type)
    intro v r _
    exact finishes_ok (Nat.le_refl _)
  · exact finishes_error

variable (T : CharTables)

theorem parseCondition_finishes (p : Parser) : Finishes 1 p (p.parseCondition T) := by
  simp only [parseCondition]
  split
  · exact finishes_error
  · apply finishes_peek (p := ⟨p.rest, p.conditionCount + 1⟩)
    intro t hlen
    split
    · split
      · rename_i word _ fd hknown
        apply (parseAfterField_finishes _ (String.ofList (T.lower word)) fd hknown).of_le
        show (advance ⟨p.rest, p.conditionCount + 1⟩).rest.length ≤ p.rest.length
        exact hlen ▸ Nat.le_succ _
      · exact finishes_error
    · exact finishes_error

/-- Three levels on top of four for each token let every function of the descent finish. -/
theorem descent_finishes (depth : Nat) :
    (∀ p : Parser, 4 * p.rest.length + 3 ≤ depth → Finishes 1 p (parseOr T depth p)) ∧
    (∀ left, ∀ p : Parser, 4 * p.rest.length + 1 ≤ depth → Finishes 0 p (orLoop T depth left p)) ∧
    (∀ p : Parser, 4 * p.rest.length + 2 ≤ depth → Finishes 1 p (parseAnd T depth p)) ∧
    (∀ left, ∀ p : Parser, 4 * p.rest.length + 1 ≤ depth →
      Finishes 0 p (andLoop T depth left p)) ∧
    ∀ p : Parser, 4 * p.rest.length + 1 ≤ depth → Finishes 1 p (parseAtom T depth p) := by
  induction depth with
  | zero => refine ⟨?_, ?_, ?_, ?_, ?_⟩ <;> intros <;> omega
  | succ depth ih =>
      obtain ⟨ihOr, ihOrLoop, ihAnd, ihAndLoop, ihAtom⟩ := ih
      refine ⟨?_, ?_, ?_, ?_, ?_⟩
      · intro p hp
        rw [parseOr]
        apply Finishes.bind (n := 0) (ihAnd p (by omega))
        intro left q hq
        exact ihOrLoop left q (by omega)
      · intro left p hp
        rw [orLoop]
        apply finishes_at
        · intro hlen
          apply Finishes.of_le (q := p.advance) _ (by omega)
          apply Finishes.mono _ (Nat.zero_le 1)
          apply Finishes.bind (n := 0) (ihAnd p.advance (by omega))
          intro right q hq
          exact ihOrLoop _ q (by omega)
        · exact finishes_ok (Nat.le_refl _)
      · intro p hp
        rw [parseAnd]
        apply Finishes.bind (n := 0) (ihAtom p (by omega))
        intro left q hq
        exact ihAndLoop left q (by omega)
      · intro left p hp
        rw [andLoop]
        apply finishes_at
        · intro hlen
          apply Finishes.of_le (q := p.advance) _ (by omega)
          apply Finishes.mono _ (Nat.zero_le 1)
          apply Finishes.bind (n := 0) (ihAtom p.advance (by omega))
          intro right q hq
          exact ihAndLoop _ q (by omega)
        · exact finishes_ok (Nat.le_refl _)
      · intro p hp
        rw [parseAtom]
        apply finishes_at
        · intro hlen
          apply Finishes.of_le (q := p.advance) _ (by omega)
          apply Finishes.bind (n := 0) (ihOr p.advance (by omega))
          intro node q _
          apply finishes_peek
          intro t hclose
          split
          · exact finishes_ok (by omega)
          · exact finishes_error
        · apply Finishes.bind (n := 0) (p.parseCondition_finishes T)
          intro c q _
          exact finishes_ok (Nat.le_refl _)

end Parser

theorem bind_ne_outOfDepth {α β : Type} {r : Except Stop α} {f : α → Except Stop β}
    (hr : r ≠ .error .outOfDepth) (hf : ∀ x, f x ≠ .error .outOfDepth) :
    (r >>= f) ≠ .error .outOfDepth := by
  cases r with
  | error stop =>
      intro h
      exact hr (congrArg Except.error (Except.error.inj h))
  | ok x => exact hf x

theorem parse_ne_outOfDepth (tokens : List Token) : parse T tokens ≠ .error .outOfDepth := by
  have hdescent := (Parser.descent_finishes T (4 * tokens.length + 3)).1 ⟨tokens, 0⟩ (Nat.le_refl _)
  apply bind_ne_outOfDepth hdescent.1
  intro x
  apply bind_ne_outOfDepth
  · simp only [Parser.peek]
    split <;> exact fun h => by cases h
  · intro t
    show ite _ _ _ ≠ _
    split <;> exact fun h => by cases h

theorem parseQuery_ne_outOfDepth (query : List Char) :
    parseQuery T query ≠ .error .outOfDepth := by
  simp only [parseQuery]
  split
  · exact fun h => by cases h
  · exact parse_ne_outOfDepth T _

end AsetPlatform.ScreenQL
