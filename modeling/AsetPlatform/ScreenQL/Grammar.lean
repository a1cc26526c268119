import AsetPlatform.ScreenQL.Parser

/-!
# The ScreenQL grammar

`Derives` relates the token kinds of an `or`, an `and` or an `atom` of the grammar to the tree they
stand for. The repetitions `and (OR and)*` and `atom (AND atom)*` are written as left recursions,
which is how their trees group.

The parser accepts exactly the sentences of at most `maxConditions` conditions and builds their
trees (`parse_eq_ok_iff`). Soundness is read off a run of the descent (`descent_sound`).
Completeness is an induction on the derivation, in which a level of the grammar is parsed whenever
the loop that follows it in the descent comes to an end (`derives_complete`).
-/

set_option autoImplicit false

namespace AsetPlatform.ScreenQL

open AsetPlatform.Library AsetPlatform.Library.Sql

/-! ## Sentences and their trees -/

def Operator.token : Operator → TokenKind
  | .compare o => .op o
  | .contains => .contains

def Literal.token : Literal → TokenKind
  | .number n => .valueNum n
  | .text s => .valueStr s.toList

def Connective.token : Connective → TokenKind
  | .and => .and
  | .or => .or

/-- The number of conditions of a tree. -/
def ASTNode.conditions : ASTNode → Nat
  | .condition _ => 1
  | .binaryOp _ left right => left.conditions + right.conditions

inductive Level where
  | or | and | atom

section Grammar

variable (T : CharTables)

/-- The tokens of a part of a sentence, and its tree. The field of a condition is named in any
case; that it is in the catalog, and that operator and value fit it, is part of the condition. -/
inductive Derives : Level → List TokenKind → ASTNode → Prop where
  | orSingle {ts : List TokenKind} {n : ASTNode} : Derives .and ts n → Derives .or ts n
  | orMore {ts us : List TokenKind} {l r : ASTNode} :
      Derives .or ts l → Derives .and us r → Derives .or (ts ++ .or :: us) (.binaryOp .or l r)
  | andSingle {ts : List TokenKind} {n : ASTNode} : Derives .atom ts n → Derives .and ts n
  | andMore {ts us : List TokenKind} {l r : ASTNode} :
      Derives .and ts l → Derives .atom us r → Derives .and (ts ++ .and :: us) (.binaryOp .and l r)
  | paren {ts : List TokenKind} {n : ASTNode} :
      Derives .or ts n → Derives .atom (.lparen :: ts ++ [.rparen]) n
  | condition {word : List Char} (c : Condition) (h : String.ofList (T.lower word) = c.fieldName) :
      Derives .atom [.field word, c.operator.token, c.value.token] (.condition c)

/-- A sentence of the grammar within the limit on conditions, and its tree. -/
def IsSentence (ts : List TokenKind) (n : ASTNode) : Prop :=
  Derives T .or ts n ∧ n.conditions ≤ maxConditions

end Grammar

/-- A tree written with all its parentheses. -/
def ASTNode.render : ASTNode → List TokenKind
  | .condition c => [.field c.fieldName.toList, c.operator.token, c.value.token]
  | .binaryOp op left right => .lparen :: (left.render ++ op.token :: right.render) ++ [.rparen]

/-! ## Soundness -/

namespace Parser

section Sound

variable {α β : Type}

theorem bind_eq_ok {r : Except Stop α} {f : α → Except Stop β} {b : β} :
    (r >>= f) = .ok b ↔ ∃ a, r = .ok a ∧ f a = .ok b := by
  cases r with
  | error stop =>
      constructor
      · intro h
        cases h
      · rintro ⟨a, ha, -⟩
        cases ha
  | ok a =>
      constructor
      · intro h
        exact ⟨a, rfl, h⟩
      · rintro ⟨a', ha, hf⟩
        cases ha
        exact hf

theorem peek_eq_ok {p : Parser} {t : Token} :
    p.peek = .ok t ↔ p.rest = t :: p.advance.rest := by
  simp only [peek, advance]
  cases p.rest with
  | nil => simp
  | cons u us => simp

theorem at_eq_ok {p : Parser} {k : TokenKind} {b : Bool} :
    p.at? k = .ok b ↔ ∃ t, p.rest = t :: p.advance.rest ∧ decide (t.kind = k) = b := by
  simp only [at?, ← peek_eq_ok]
  cases p.peek with
  | error stop => simp [Except.map]
  | ok t => simp [Except.map]

theorem parseOperator_eq_ok {p q : Parser} {field : String} {o : Operator} :
    p.parseOperator field = .ok (o, q) ↔
      q = p.advance ∧ ∃ t, p.rest = t :: q.rest ∧ t.kind = o.token := by
  simp only [parseOperator, bind_eq_ok, peek_eq_ok]
  constructor
  · rintro ⟨t, hrest, h⟩
    split at h
    · cases h
      exact ⟨rfl, t, hrest, ‹_›⟩
    · cases h
      exact ⟨rfl, t, hrest, ‹_›⟩
    · cases h
  · rintro ⟨rfl, t, hrest, hkind⟩
    refine ⟨t, hrest, ?_⟩
    cases o <;> simp only [hkind, Operator.token] <;> rfl

theorem parseValue_eq_ok {p q : Parser} {field : String} {o : Operator} {type : FieldType}
    {v : {v : Literal // v.fits type = true}} :
    p.parseValue field o type = .ok (v, q) ↔
      q = p.advance ∧ ∃ t, p.rest = t :: q.rest ∧ t.kind = v.1.token := by
  simp only [parseValue, bind_eq_ok, peek_eq_ok]
  constructor
  · rintro ⟨t, hrest, h⟩
    generalize hk : t.kind = kind at h
    cases type <;> cases kind <;> first
      | cases h; exact ⟨rfl, t, hrest, by simp [hk, Literal.token]⟩
      | cases h
  · rintro ⟨rfl, t, hrest, hkind⟩
    refine ⟨t, hrest, ?_⟩
    obtain ⟨v, hv⟩ := v
    cases type <;> cases v <;> first
      | cases hv; done
      | simp [hkind, Literal.token]

@[simp]
theorem advance_conditionCount (p : Parser) : p.advance.conditionCount = p.conditionCount := rfl

theorem parseAfterField_eq_ok {p q : Parser} {name : String} {fd : FieldDef}
    {hknown : fieldCatalog.get? name = some fd} {c : Condition} :
    p.parseAfterField name fd hknown = .ok (c, q) ↔
      c.fieldName = name ∧ q.conditionCount = p.conditionCount ∧ ∃ o v,
        p.rest = o :: v :: q.rest ∧ o.kind = c.operator.token ∧ v.kind = c.value.token := by
  simp only [parseAfterField, bind_eq_ok, peek_eq_ok]
  constructor
  · rintro ⟨opToken, hop, ⟨o, p'⟩, hoperator, h⟩
    obtain ⟨rfl, t, hrest, hkind⟩ := parseOperator_eq_ok.1 hoperator
    split at h
    · obtain ⟨⟨v, p''⟩, hvalue, hok⟩ := bind_eq_ok.1 h
      obtain ⟨rfl, u, hrest', hkind'⟩ := parseValue_eq_ok.1 hvalue
      cases hok
      exact ⟨rfl, rfl, t, u, hrest' ▸ hrest, hkind, hkind'⟩
    · cases h
  · rintro ⟨hname, hcount, o, v, hrest, ho, hv⟩
    obtain ⟨name', operator, value, fd', known, allowed, fits⟩ := c
    cases hname
    -- the catalog has one entry for the name
    cases Option.some.inj (known.symm.trans hknown)
    have hadvance : p.advance.rest = v :: q.rest := by rw [advance, hrest]; rfl
    have hlast : p.advance.advance = q := by
      obtain ⟨rest, count⟩ := q
      cases hcount
      rw [advance, hadvance]
      rfl
    refine ⟨o, hadvance ▸ hrest, (operator, p.advance), ?_, ?_⟩
    · exact parseOperator_eq_ok.2 ⟨rfl, o, hadvance ▸ hrest, ho⟩
    · show dite _ _ _ = _
      rw [dif_pos allowed]
      apply bind_eq_ok.2
      refine ⟨(⟨value, fits⟩, q), ?_, rfl⟩
      exact parseValue_eq_ok.2 ⟨hlast.symm, v, hadvance, hv⟩

variable {T : CharTables}

/-- A condition is read when it is within the limit and its three tokens stand next. -/
theorem parseCondition_eq_ok {p q : Parser} {c : Condition} :
    p.parseCondition T = .ok (c, q) ↔
      p.conditionCount + 1 ≤ maxConditions ∧ q.conditionCount = p.conditionCount + 1 ∧
        ∃ f o v word, p.rest = f :: o :: v :: q.rest ∧ f.kind = .field word ∧
          String.ofList (T.lower word) = c.fieldName ∧ o.kind = c.operator.token ∧
          v.kind = c.value.token := by
  simp only [parseCondition]
  split
  · rename_i hmax
    constructor
    · intro h
      cases h
    · rintro ⟨hle, -⟩
      omega
  · rename_i hmax
    simp only [bind_eq_ok, peek_eq_ok]
    constructor
    · rintro ⟨f, hrest, h⟩
      split at h
      · rename_i word hword
        split at h
        · obtain ⟨hname, hcount, o, v, hrest', ho, hv⟩ := parseAfterField_eq_ok.1 h
          refine ⟨by omega, hcount, f, o, v, word, ?_, hword, hname.symm, ho, hv⟩
          exact hrest' ▸ hrest
        · cases h
      · cases h
    · rintro ⟨-, hcount, f, o, v, word, hrest, hword, hname, ho, hv⟩
      have hadvance : (advance ⟨p.rest, p.conditionCount + 1⟩).rest = o :: v :: q.rest := by
        rw [advance, hrest]
        rfl
      refine ⟨f, hadvance ▸ hrest, ?_⟩
      have hknown := c.known
      rw [← hname] at hknown
      simp only [hword]
      split
      · exact parseAfterField_eq_ok.2 ⟨hname.symm, hcount, o, v, hadvance, ho, hv⟩
      · rename_i hnone
        rw [hnone] at hknown
        cases hknown

end Sound

/-! ### The descent -/

section Descent

variable (T : CharTables)

/-- What a successful part of the descent has read: tokens that derive its tree, within the limit
on conditions if the conditions before them were. -/
def Reads (level : Level) (p : Parser) (n : ASTNode) (q : Parser) : Prop :=
  ∃ ts, p.rest = ts ++ q.rest ∧ Derives T level (ts.map (·.kind)) n ∧
    q.conditionCount = p.conditionCount + n.conditions ∧
    (p.conditionCount ≤ maxConditions → q.conditionCount ≤ maxConditions)

/-- What a loop of the descent has read on top of the tokens of its left side. -/
def ReadsOn (level : Level) (left : ASTNode) (p : Parser) (n : ASTNode) (q : Parser) : Prop :=
  ∀ us, Derives T level us left →
    ∃ ts, p.rest = ts ++ q.rest ∧ Derives T level (us ++ ts.map (·.kind)) n ∧
      q.conditionCount + left.conditions = p.conditionCount + n.conditions ∧
      (p.conditionCount ≤ maxConditions → q.conditionCount ≤ maxConditions)

variable {T}

theorem ReadsOn.refl {level : Level} {left : ASTNode} {p : Parser} :
    ReadsOn T level left p left p := by
  intro us h
  refine ⟨[], rfl, ?_, rfl, id⟩
  simpa using h

theorem Reads.loop {level inner : Level} {left n : ASTNode} {p q r : Parser}
    (hsingle : ∀ ts, Derives T inner ts left → Derives T level ts left)
    (h : Reads T inner p left q) (hloop : ReadsOn T level left q n r) : Reads T level p n r := by
  obtain ⟨ts, hrest, hderives, hcount, hmax⟩ := h
  obtain ⟨us, hrest', hderives', hcount', hmax'⟩ := hloop _ (hsingle _ hderives)
  refine ⟨ts ++ us, ?_, ?_, ?_, fun h => hmax' (hmax h)⟩
  · rw [hrest, hrest', List.append_assoc]
  · rw [List.map_append]
    exact hderives'
  · omega

/-- One more round of a loop: the connective, the right side, and the rounds after it. -/
theorem ReadsOn.more {level inner : Level} (op : Connective) {left right n : ASTNode}
    {p q r : Parser} {t : Token}
    (hmore : ∀ ts us, Derives T level ts left → Derives T inner us right →
      Derives T level (ts ++ op.token :: us) (.binaryOp op left right))
    (ht : p.rest = t :: p.advance.rest) (hkind : t.kind = op.token)
    (h : Reads T inner p.advance right q)
    (hloop : ReadsOn T level (.binaryOp op left right) q n r) : ReadsOn T level left p n r := by
  intro us hleft
  obtain ⟨ts, hrest, hderives, hcount, hmax⟩ := h
  obtain ⟨vs, hrest', hderives', hcount', hmax'⟩ := hloop _ (hmore _ _ hleft hderives)
  refine ⟨t :: ts ++ vs, ?_, ?_, ?_, fun h => hmax' (hmax h)⟩
  · rw [ht, hrest, hrest', List.cons_append, List.cons_append, List.append_assoc]
  · rw [List.cons_append, List.map_cons, List.map_append, hkind]
    simpa [List.append_assoc] using hderives'
  · simp only [advance_conditionCount, ASTNode.conditions] at hcount hcount'
    omega

theorem descent_sound (depth : Nat) :
    (∀ p n q, parseOr T depth p = .ok (n, q) → Reads T .or p n q) ∧
    (∀ left p n q, orLoop T depth left p = .ok (n, q) → ReadsOn T .or left p n q) ∧
    (∀ p n q, parseAnd T depth p = .ok (n, q) → Reads T .and p n q) ∧
    (∀ left p n q, andLoop T depth left p = .ok (n, q) → ReadsOn T .and left p n q) ∧
    ∀ p n q, parseAtom T depth p = .ok (n, q) → Reads T .atom p n q := by
  induction depth with
  | zero =>
      refine ⟨?_, ?_, ?_, ?_, ?_⟩
      · intro p n q h
        cases h
      · intro left p n q h
        cases h
      · intro p n q h
        cases h
      · intro left p n q h
        cases h
      · intro p n q h
        cases h
  | succ depth ih =>
      obtain ⟨ihOr, ihOrLoop, ihAnd, ihAndLoop, ihAtom⟩ := ih
      refine ⟨?_, ?_, ?_, ?_, ?_⟩
      · intro p n q h
        -- the first `and` is the left side of the loop
        rw [parseOr] at h
        obtain ⟨⟨left, p'⟩, hleft, hloop⟩ := bind_eq_ok.1 h
        exact (ihAnd _ _ _ hleft).loop (fun _ => .orSingle) (ihOrLoop _ _ _ _ hloop)
      · intro left p n q h
        -- either an OR follows, and the loop goes on with a larger left side, or it ends here
        rw [orLoop] at h
        obtain ⟨b, hat, h⟩ := bind_eq_ok.1 h
        obtain ⟨t, ht, hb⟩ := at_eq_ok.1 hat
        cases b with
        | true =>
            obtain ⟨⟨right, p'⟩, hright, hloop⟩ := bind_eq_ok.1 h
            exact ReadsOn.more .or (fun _ _ => .orMore) ht (of_decide_eq_true hb)
              (ihAnd _ _ _ hright) (ihOrLoop _ _ _ _ hloop)
        | false =>
            cases h
            exact ReadsOn.refl
      · intro p n q h
        rw [parseAnd] at h
        obtain ⟨⟨left, p'⟩, hleft, hloop⟩ := bind_eq_ok.1 h
        exact (ihAtom _ _ _ hleft).loop (fun _ => .andSingle) (ihAndLoop _ _ _ _ hloop)
      · intro left p n q h
        -- likewise with AND and atoms
        rw [andLoop] at h
        obtain ⟨b, hat, h⟩ := bind_eq_ok.1 h
        obtain ⟨t, ht, hb⟩ := at_eq_ok.1 hat
        cases b with
        | true =>
            obtain ⟨⟨right, p'⟩, hright, hloop⟩ := bind_eq_ok.1 h
            exact ReadsOn.more .and (fun _ _ => .andMore) ht (of_decide_eq_true hb)
              (ihAtom _ _ _ hright) (ihAndLoop _ _ _ _ hloop)
        | false =>
            cases h
            exact ReadsOn.refl
      · intro p n q h
        -- a parenthesis, which must close, or a condition
        rw [parseAtom] at h
        obtain ⟨b, hat, h⟩ := bind_eq_ok.1 h
        obtain ⟨t, ht, hb⟩ := at_eq_ok.1 hat
        cases b with
        | true =>
            obtain ⟨⟨node, p'⟩, hnode, h⟩ := bind_eq_ok.1 h
            obtain ⟨ts, hrest, hderives, hcount, hmax⟩ := ihOr _ _ _ hnode
            obtain ⟨u, hu, h⟩ := bind_eq_ok.1 h
            have hclose := peek_eq_ok.1 hu
            by_cases hrparen : u.kind = .rparen
            · rw [if_pos hrparen] at h
              cases h
              refine ⟨t :: ts ++ [u], ?_, ?_, hcount, hmax⟩
              · rw [ht, hrest, hclose]
                simp
              · have hlparen := of_decide_eq_true hb
                simp only [List.cons_append, List.map_cons, List.map_append, List.map_nil, hlparen]
                rw [hrparen]
                exact .paren hderives
            · rw [if_neg hrparen] at h
              cases h
        | false =>
            obtain ⟨⟨c, p'⟩, hcond, h⟩ := bind_eq_ok.1 h
            cases h
            obtain ⟨hle, hcount, f, o, v, word, hrest, hword, hname, ho, hv⟩ :=
              parseCondition_eq_ok.1 hcond
            refine ⟨[f, o, v], hrest, ?_, hcount, fun _ => hcount ▸ hle⟩
            simp only [List.map_cons, List.map_nil, hword, ho, hv]
            exact .condition c hname

end Descent

/-! ## Completeness -/

section Complete

/-- The same outcome, unless the first stopped at the bound on the depth. -/
def Refines {α : Type} (r r' : Except Stop α) : Prop := r = .error .outOfDepth ∨ r = r'

theorem Refines.bind {α β : Type} {r r' : Except Stop α} {f f' : α → Except Stop β}
    (hr : Refines r r') (hf : ∀ a, Refines (f a) (f' a)) : Refines (r >>= f) (r' >>= f') := by
  rcases hr with rfl | rfl
  · exact Or.inl rfl
  · cases r with
    | error stop => exact Or.inr rfl
    | ok a => exact hf a

theorem Refines.refl {α : Type} (r : Except Stop α) : Refines r r := Or.inr rfl

theorem Refines.trans {α : Type} {r r' r'' : Except Stop α} (h : Refines r r')
    (h' : Refines r' r'') : Refines r r'' := by
  rcases h with h | rfl
  · exact Or.inl h
  · exact h'

theorem Refines.eq_ok {α : Type} {r r' : Except Stop α} {a : α} (h : Refines r r')
    (hr : r = .ok a) : r' = .ok a := by
  rcases h with h | h
  · rw [h] at hr
    cases hr
  · rw [← h, hr]

variable (T : CharTables)

/-- One more level of depth changes no outcome but that of stopping at the bound. -/
theorem descent_mono (depth : Nat) :
    (∀ p, Refines (parseOr T depth p) (parseOr T (depth + 1) p)) ∧
    (∀ left p, Refines (orLoop T depth left p) (orLoop T (depth + 1) left p)) ∧
    (∀ p, Refines (parseAnd T depth p) (parseAnd T (depth + 1) p)) ∧
    (∀ left p, Refines (andLoop T depth left p) (andLoop T (depth + 1) left p)) ∧
    ∀ p, Refines (parseAtom T depth p) (parseAtom T (depth + 1) p) := by
  -- by induction on the depth, since each function calls the others with one level less
  induction depth with
  | zero => refine ⟨?_, ?_, ?_, ?_, ?_⟩ <;> intros <;> exact Or.inl rfl
  | succ depth ih =>
      obtain ⟨ihOr, ihOrLoop, ihAnd, ihAndLoop, ihAtom⟩ := ih
      refine ⟨?_, ?_, ?_, ?_, ?_⟩
      · intro p
        rw [parseOr, parseOr]
        exact (ihAnd p).bind fun a => ihOrLoop a.1 a.2
      · intro left p
        rw [orLoop, orLoop]
        apply (Refines.refl _).bind
        intro b
        cases b with
        | true => exact (ihAnd _).bind fun a => ihOrLoop _ a.2
        | false => exact Refines.refl _
      · intro p
        rw [parseAnd, parseAnd]
        exact (ihAtom p).bind fun a => ihAndLoop a.1 a.2
      · intro left p
        rw [andLoop, andLoop]
        apply (Refines.refl _).bind
        intro b
        cases b with
        | true => exact (ihAtom _).bind fun a => ihAndLoop _ a.2
        | false => exact Refines.refl _
      · intro p
        rw [parseAtom, parseAtom]
        apply (Refines.refl _).bind
        intro b
        cases b with
        | true => exact (ihOr _).bind fun a => Refines.refl _
        | false => exact Refines.refl _

theorem refines_of_le {β : Type} {f : Nat → Except Stop β}
    (hmono : ∀ depth, Refines (f depth) (f (depth + 1))) {depth depth' : Nat}
    (hle : depth ≤ depth') : Refines (f depth) (f depth') := by
  induction hle with
  | refl => exact Refines.refl _
  | step _ ih => exact ih.trans (hmono _)

variable {T}

theorem parseOr_of_le {depth depth' : Nat} (hle : depth ≤ depth') (p : Parser) :
    Refines (parseOr T depth p) (parseOr T depth' p) :=
  refines_of_le (f := fun d => parseOr T d p) (fun d => (descent_mono T d).1 p) hle

theorem orLoop_of_le {depth depth' : Nat} (hle : depth ≤ depth') {left : ASTNode} {p : Parser}
    {res : ASTNode × Parser} (h : orLoop T depth left p = .ok res) :
    orLoop T depth' left p = .ok res :=
  (refines_of_le (f := fun d => orLoop T d left p) (fun d => (descent_mono T d).2.1 left p)
    hle).eq_ok h

theorem parseAnd_of_le {depth depth' : Nat} (hle : depth ≤ depth') {p : Parser}
    {res : ASTNode × Parser} (h : parseAnd T depth p = .ok res) : parseAnd T depth' p = .ok res :=
  (refines_of_le (f := fun d => parseAnd T d p) (fun d => (descent_mono T d).2.2.1 p) hle).eq_ok h

theorem andLoop_of_le {depth depth' : Nat} (hle : depth ≤ depth') {left : ASTNode} {p : Parser}
    {res : ASTNode × Parser} (h : andLoop T depth left p = .ok res) :
    andLoop T depth' left p = .ok res :=
  (refines_of_le (f := fun d => andLoop T d left p) (fun d => (descent_mono T d).2.2.2.1 left p)
    hle).eq_ok h

theorem parseAtom_of_le {depth depth' : Nat} (hle : depth ≤ depth') {p : Parser}
    {res : ASTNode × Parser} (h : parseAtom T depth p = .ok res) :
    parseAtom T depth' p = .ok res :=
  (refines_of_le (f := fun d => parseAtom T d p) (fun d => (descent_mono T d).2.2.2.2 p)
    hle).eq_ok h

theorem parseOr_eq_ok {depth depth' : Nat} {p : Parser} {res : ASTNode × Parser}
    (hdepth : parseOr T depth' p ≠ .error .outOfDepth) (h : parseOr T depth p = .ok res) :
    parseOr T depth' p = .ok res := by
  have hmax := (parseOr_of_le (Nat.le_max_left depth depth') p).eq_ok h
  rcases parseOr_of_le (Nat.le_max_right depth depth') p with hout | heq
  · exact absurd hout hdepth
  · rw [heq, hmax]

def NotNext (k : TokenKind) (ts : List Token) : Prop := ∃ t us, ts = t :: us ∧ t.kind ≠ k

theorem orLoop_stop {ts : List Token} (h : NotNext .or ts) (depth : Nat) (left : ASTNode)
    (count : Nat) : orLoop T (depth + 1) left ⟨ts, count⟩ = .ok (left, ⟨ts, count⟩) := by
  obtain ⟨t, us, rfl, ht⟩ := h
  rw [orLoop]
  apply bind_eq_ok.2
  exact ⟨false, at_eq_ok.2 ⟨t, rfl, decide_eq_false ht⟩, rfl⟩

theorem andLoop_stop {ts : List Token} (h : NotNext .and ts) (depth : Nat) (left : ASTNode)
    (count : Nat) : andLoop T (depth + 1) left ⟨ts, count⟩ = .ok (left, ⟨ts, count⟩) := by
  obtain ⟨t, us, rfl, ht⟩ := h
  rw [andLoop]
  apply bind_eq_ok.2
  exact ⟨false, at_eq_ok.2 ⟨t, rfl, decide_eq_false ht⟩, rfl⟩

/-- What the descent does with the tokens of a derived tree before other tokens: an atom is read,
and the outcome of an `and` or an `or` is that of its loop from the derived tree on. -/
def Continues (T : CharTables) : Level → List Token → ASTNode → Prop
  | .or, ts, n => ∀ us count, NotNext .and us → count + n.conditions ≤ maxConditions →
      ∀ depth res, orLoop T depth n ⟨us, count + n.conditions⟩ = .ok res →
        ∃ depth', parseOr T depth' ⟨ts ++ us, count⟩ = .ok res
  | .and, ts, n => ∀ us count, count + n.conditions ≤ maxConditions →
      ∀ depth res, andLoop T depth n ⟨us, count + n.conditions⟩ = .ok res →
        ∃ depth', parseAnd T depth' ⟨ts ++ us, count⟩ = .ok res
  | .atom, ts, n => ∀ us count, count + n.conditions ≤ maxConditions →
      ∃ depth, parseAtom T depth ⟨ts ++ us, count⟩ = .ok (n, ⟨us, count + n.conditions⟩)

theorem Continues.and_ok {ts us : List Token} {n : ASTNode} (h : Continues T .and ts n)
    (hnext : NotNext .and us) (count : Nat) (hle : count + n.conditions ≤ maxConditions) :
    ∃ depth, parseAnd T depth ⟨ts ++ us, count⟩ = .ok (n, ⟨us, count + n.conditions⟩) :=
  h us count hle 1 _ (andLoop_stop hnext 0 n _)

theorem Continues.or_ok {ts us : List Token} {n : ASTNode} (h : Continues T .or ts n)
    (hand : NotNext .and us) (hor : NotNext .or us) (count : Nat)
    (hle : count + n.conditions ≤ maxConditions) :
    ∃ depth, parseOr T depth ⟨ts ++ us, count⟩ = .ok (n, ⟨us, count + n.conditions⟩) :=
  h us count hand hle 1 _ (orLoop_stop hor 0 n _)

theorem derives_complete {level : Level} {kinds : List TokenKind} {n : ASTNode}
    (h : Derives T level kinds n) :
    ∀ ts : List Token, ts.map (·.kind) = kinds → Continues T level ts n := by
  induction h with
  -- the loop that starts after a single `and` is the one that is given
  | @orSingle kinds n _ ih =>
      intro ts hts us count hnext hle depth res hres
      obtain ⟨depth', hand⟩ := (ih ts hts).and_ok hnext count hle
      refine ⟨max depth depth' + 1, ?_⟩
      rw [parseOr]
      apply bind_eq_ok.2
      refine ⟨_, parseAnd_of_le (Nat.le_max_right _ _) hand, ?_⟩
      exact orLoop_of_le (Nat.le_max_left _ _) hres
  | @orMore kinds kinds' l r _ _ ihLeft ihRight =>
      intro ts hts us count hnext hle depth res hres
      obtain ⟨ts₁, ts₂, rfl, hts₁, hts₂⟩ := List.map_eq_append_iff.1 hts
      obtain ⟨t, ts₃, rfl, ht, hts₃⟩ := List.map_eq_cons_iff.1 hts₂
      simp only [ASTNode.conditions] at hle hres
      -- the loop reads OR and the right side, and goes on as given
      obtain ⟨depth', hright⟩ := (ihRight ts₃ hts₃).and_ok hnext (count + l.conditions) (by omega)
      have hloop : orLoop T (max depth depth' + 1) l ⟨t :: (ts₃ ++ us), count + l.conditions⟩ =
          .ok res := by
        rw [orLoop]
        apply bind_eq_ok.2
        refine ⟨true, at_eq_ok.2 ⟨t, rfl, decide_eq_true ht⟩, ?_⟩
        apply bind_eq_ok.2
        refine ⟨_, parseAnd_of_le (Nat.le_max_right _ _) hright, ?_⟩
        rw [← Nat.add_assoc] at hres
        exact orLoop_of_le (Nat.le_max_left _ _) hres
      -- the left side stands before an OR, so its own AND loop ends there
      have hnot : NotNext .and (t :: (ts₃ ++ us)) := ⟨t, _, rfl, by rw [ht]; decide⟩
      have hfinal := ihLeft ts₁ hts₁ _ count hnot (by omega) _ res hloop
      rw [List.append_assoc]
      exact hfinal
  | @andSingle kinds n _ ih =>
      intro ts hts us count hle depth res hres
      obtain ⟨depth', hatom⟩ := ih ts hts us count hle
      refine ⟨max depth depth' + 1, ?_⟩
      rw [parseAnd]
      apply bind_eq_ok.2
      refine ⟨_, parseAtom_of_le (Nat.le_max_right _ _) hatom, ?_⟩
      exact andLoop_of_le (Nat.le_max_left _ _) hres
  | @andMore kinds kinds' l r _ _ ihLeft ihRight =>
      intro ts hts us count hle depth res hres
      obtain ⟨ts₁, ts₂, rfl, hts₁, hts₂⟩ := List.map_eq_append_iff.1 hts
      obtain ⟨t, ts₃, rfl, ht, hts₃⟩ := List.map_eq_cons_iff.1 hts₂
      simp only [ASTNode.conditions] at hle hres
      obtain ⟨depth', hright⟩ := ihRight ts₃ hts₃ us (count + l.conditions) (by omega)
      have hloop : andLoop T (max depth depth' + 1) l ⟨t :: (ts₃ ++ us), count + l.conditions⟩ =
          .ok res := by
        rw [andLoop]
        apply bind_eq_ok.2
        refine ⟨true, at_eq_ok.2 ⟨t, rfl, decide_eq_true ht⟩, ?_⟩
        apply bind_eq_ok.2
        refine ⟨_, parseAtom_of_le (Nat.le_max_right _ _) hright,
          ?_⟩
        rw [← Nat.add_assoc] at hres
        exact andLoop_of_le (Nat.le_max_left _ _) hres
      have hfinal := ihLeft ts₁ hts₁ _ count (by omega) _ res hloop
      rw [List.append_assoc]
      exact hfinal
  | @paren kinds n _ ih =>
      intro ts hts us count hle
      obtain ⟨t, ts₁, rfl, ht, hts₁⟩ := List.map_eq_cons_iff.1 hts
      obtain ⟨ts₂, ts₃, rfl, hts₂, hts₃⟩ := List.map_eq_append_iff.1 hts₁
      obtain ⟨u, ts₄, rfl, hu, hnil⟩ := List.map_eq_cons_iff.1 hts₃
      cases List.map_eq_nil_iff.1 hnil
      -- the closing parenthesis ends the loops inside
      have hand : NotNext .and (u :: us) := ⟨u, us, rfl, by rw [hu]; decide⟩
      have hor : NotNext .or (u :: us) := ⟨u, us, rfl, by rw [hu]; decide⟩
      obtain ⟨depth, hinner⟩ := (ih ts₂ hts₂).or_ok hand hor count hle
      refine ⟨depth + 1, ?_⟩
      rw [parseAtom]
      apply bind_eq_ok.2
      refine ⟨true, at_eq_ok.2 ⟨t, rfl, decide_eq_true ht⟩, ?_⟩
      apply bind_eq_ok.2
      refine ⟨(n, ⟨u :: us, count + n.conditions⟩), ?_, ?_⟩
      · rw [show (advance ⟨t :: (ts₂ ++ [u]) ++ us, count⟩) = ⟨ts₂ ++ u :: us, count⟩ by
          simp [advance]]
        exact hinner
      · apply bind_eq_ok.2
        exact ⟨u, rfl, if_pos hu⟩
  | @condition word c hname =>
      intro ts hts us count hle
      obtain ⟨f, ts₁, rfl, hf, hts₁⟩ := List.map_eq_cons_iff.1 hts
      obtain ⟨o, ts₂, rfl, ho, hts₂⟩ := List.map_eq_cons_iff.1 hts₁
      obtain ⟨v, ts₃, rfl, hv, hnil⟩ := List.map_eq_cons_iff.1 hts₂
      cases List.map_eq_nil_iff.1 hnil
      -- a condition is read at any depth
      refine ⟨1, ?_⟩
      rw [parseAtom]
      apply bind_eq_ok.2
      refine ⟨false, at_eq_ok.2 ⟨f, rfl, decide_eq_false (by rw [hf]; simp)⟩, ?_⟩
      apply bind_eq_ok.2
      refine ⟨(c, ⟨us, count + 1⟩), ?_, rfl⟩
      exact parseCondition_eq_ok.2 ⟨hle, rfl, f, o, v, word, rfl, hf, hname, ho, hv⟩

end Complete

/-! ## The parser stays before the end of the list -/

section Stays

variable {α β : Type}

/-- The tokens left end in one EOF. -/
def EndsInEof (p : Parser) : Prop :=
  ∃ ts e, p.rest = ts ++ [e] ∧ e.kind = .eof ∧ ∀ t ∈ ts, t.kind ≠ .eof

/-- Nothing was read past the last token, and a success leaves the EOF to read. -/
def Stays (r : Except Stop (α × Parser)) : Prop :=
  r ≠ .error .pastEnd ∧ ∀ a q, r = .ok (a, q) → EndsInEof q

theorem stays_ok {a : α} {q : Parser} (h : EndsInEof q) : Stays (.ok (a, q)) := by
  constructor
  · intro h
    cases h
  · intro a' q' hq
    cases hq
    exact h

theorem stays_error {e : ScreenQLError} : Stays (.error (.error e) : Except Stop (α × Parser)) := by
  constructor
  · intro h
    cases h
  · intro a q h
    cases h

theorem stays_outOfDepth : Stays (.error .outOfDepth : Except Stop (α × Parser)) := by
  constructor
  · intro h
    cases h
  · intro a q h
    cases h

theorem Stays.bind {r : Except Stop (α × Parser)} {f : α × Parser → Except Stop (β × Parser)}
    (hr : Stays r) (hf : ∀ a q, EndsInEof q → Stays (f (a, q))) : Stays (r >>= f) := by
  cases r with
  | error stop =>
      constructor
      · intro h
        exact hr.1 (congrArg Except.error (Except.error.inj h))
      · intro a q h
        cases h
  | ok x => exact hf x.1 x.2 (hr.2 x.1 x.2 rfl)

theorem EndsInEof.peek {p : Parser} (h : EndsInEof p) :
    ∃ t, p.peek = .ok t ∧ (t.kind ≠ .eof → EndsInEof p.advance) := by
  obtain ⟨ts, e, hrest, he, hts⟩ := h
  cases ts with
  | nil =>
      refine ⟨e, ?_, fun hkind => absurd he hkind⟩
      simp only [Parser.peek, hrest, List.nil_append]
  | cons t us =>
      refine ⟨t, ?_, fun _ => ⟨us, e, ?_, he, fun u hu => hts u (List.mem_cons_of_mem t hu)⟩⟩
      · simp only [Parser.peek, hrest, List.cons_append]
      · simp only [advance, hrest, List.cons_append, List.tail_cons]

theorem stays_peek {p : Parser} {f : Token → Except Stop (α × Parser)} (h : EndsInEof p)
    (hf : ∀ t, (t.kind ≠ .eof → EndsInEof p.advance) → Stays (f t)) : Stays (p.peek >>= f) := by
  obtain ⟨t, hpeek, hadvance⟩ := h.peek
  rw [hpeek]
  exact hf t hadvance

theorem stays_at {p : Parser} {k : TokenKind} {f : Bool → Except Stop (α × Parser)}
    (h : EndsInEof p) (hk : k ≠ .eof) (htrue : EndsInEof p.advance → Stays (f true))
    (hfalse : Stays (f false)) : Stays (p.at? k >>= f) := by
  obtain ⟨t, hpeek, hadvance⟩ := h.peek
  simp only [at?, hpeek]
  show Stays (f (decide (t.kind = k)))
  by_cases hkind : t.kind = k
  · rw [decide_eq_true hkind]
    exact htrue (hadvance (hkind ▸ hk))
  · rw [decide_eq_false hkind]
    exact hfalse

theorem parseOperator_stays {p : Parser} (h : EndsInEof p) (field : String) :
    Stays (p.parseOperator field) := by
  apply stays_peek h
  intro t hadvance
  split
  · rename_i hkind
    exact stays_ok (hadvance (by rw [hkind]; exact TokenKind.noConfusion))
  · rename_i hkind
    exact stays_ok (hadvance (by rw [hkind]; exact TokenKind.noConfusion))
  · exact stays_error

theorem parseValue_stays {p : Parser} (h : EndsInEof p) (field : String) (o : Operator)
    (type : FieldType) : Stays (p.parseValue field o type) := by
  apply stays_peek h
  intro t hadvance
  generalize t.kind = kind at hadvance
  -- the pairs of a field type and a token kind: the literal is consumed or there is an error
  cases type <;> cases kind <;>
    first | exact stays_ok (hadvance TokenKind.noConfusion) | exact stays_error

theorem parseAfterField_stays {p : Parser} (h : EndsInEof p) (name : String) (fd : FieldDef)
    (hknown : fieldCatalog.get? name = some fd) : Stays (p.parseAfterField name fd hknown) := by
  apply stays_peek h
  intro opToken _
  apply (parseOperator_stays h name).bind
  intro o q hq
  show Stays (dite _ _ _)
  split
  · apply (parseValue_stays hq name o fd.type).bind
    intro v r hr
    exact stays_ok hr
  · exact stays_error

variable (T : CharTables)

theorem parseCondition_stays {p : Parser} (h : EndsInEof p) : Stays (p.parseCondition T) := by
  simp only [parseCondition]
  split
  · exact stays_error
  · apply stays_peek (p := ⟨p.rest, p.conditionCount + 1⟩) h
    intro t hadvance
    split
    · rename_i word hkind
      have hnext := hadvance (by rw [hkind]; exact TokenKind.noConfusion)
      split
      · exact parseAfterField_stays hnext _ _ _
      · exact stays_error
    · exact stays_error

theorem descent_stays (depth : Nat) :
    (∀ p, EndsInEof p → Stays (parseOr T depth p)) ∧
    (∀ left p, EndsInEof p → Stays (orLoop T depth left p)) ∧
    (∀ p, EndsInEof p → Stays (parseAnd T depth p)) ∧
    (∀ left p, EndsInEof p → Stays (andLoop T depth left p)) ∧
    ∀ p, EndsInEof p → Stays (parseAtom T depth p) := by
  induction depth with
  | zero => refine ⟨?_, ?_, ?_, ?_, ?_⟩ <;> intros <;> exact stays_outOfDepth
  | succ depth ih =>
      obtain ⟨ihOr, ihOrLoop, ihAnd, ihAndLoop, ihAtom⟩ := ih
      refine ⟨?_, ?_, ?_, ?_, ?_⟩
      · intro p hp
        rw [parseOr]
        apply (ihAnd p hp).bind
        intro left q hq
        exact ihOrLoop left q hq
      · intro left p hp
        rw [orLoop]
        apply stays_at hp TokenKind.noConfusion
        · intro hadvance
          apply (ihAnd _ hadvance).bind
          intro right q hq
          exact ihOrLoop _ q hq
        · exact stays_ok hp
      · intro p hp
        rw [parseAnd]
        apply (ihAtom p hp).bind
        intro left q hq
        exact ihAndLoop left q hq
      · intro left p hp
        rw [andLoop]
        apply stays_at hp TokenKind.noConfusion
        · intro hadvance
          apply (ihAtom _ hadvance).bind
          intro right q hq
          exact ihAndLoop _ q hq
        · exact stays_ok hp
      · intro p hp
        rw [parseAtom]
        apply stays_at hp TokenKind.noConfusion
        · intro hadvance
          apply (ihOr _ hadvance).bind
          intro node q hq
          apply stays_peek hq
          intro t hclose
          split
          · rename_i hkind
            exact stays_ok (hclose (by rw [hkind]; exact TokenKind.noConfusion))
          · exact stays_error
        · apply (parseCondition_stays T hp).bind
          intro c q hq
          exact stays_ok hq

end Stays

end Parser

/-! ## The parser and the grammar -/

section Parse

variable (T : CharTables)

theorem parse_eq_ok_iff_descent {tokens : List Token} {n : ASTNode} :
    parse T tokens = .ok n ↔ ∃ q e us,
      Parser.parseOr T (4 * tokens.length + 3) ⟨tokens, 0⟩ = .ok (n, q) ∧
        q.rest = e :: us ∧ e.kind = .eof := by
  simp only [parse, Parser.bind_eq_ok, Parser.peek_eq_ok]
  constructor
  · rintro ⟨⟨node, q⟩, hor, e, hrest, h⟩
    by_cases he : e.kind = .eof
    · rw [if_pos he] at h
      cases h
      exact ⟨q, e, _, hor, hrest, he⟩
    · rw [if_neg he] at h
      cases h
  · rintro ⟨q, e, us, hor, hrest, he⟩
    refine ⟨(n, q), hor, e, ?_, if_pos he⟩
    simp only [Parser.advance, hrest, List.tail_cons]

theorem append_eof_inj {ts us vs : List Token} {e e' : Token} (he' : e'.kind = .eof)
    (hts : ∀ t ∈ ts, t.kind ≠ .eof) (h : ts ++ [e] = us ++ e' :: vs) : ts = us ∧ vs = [] := by
  obtain ⟨as, rfl, has⟩ | ⟨as, rfl, has⟩ := List.append_eq_append_iff.1 h
  -- the two ends meet, or one EOF stands among the tokens before the other
  · cases as with
    | nil =>
        cases has
        exact ⟨(List.append_nil ts).symm, rfl⟩
    | cons a as =>
        exact absurd (List.cons.inj has).2 (by simp)
  · cases as with
    | nil =>
        cases has
        exact ⟨List.append_nil us, rfl⟩
    | cons a as =>
        cases (List.cons.inj has).1
        exact absurd he' (hts e' (by simp))

theorem parse_eq_ok_iff {ts : List Token} {e : Token} (he : e.kind = .eof)
    (hts : ∀ t ∈ ts, t.kind ≠ .eof) (n : ASTNode) :
    parse T (ts ++ [e]) = .ok n ↔ IsSentence T (ts.map (·.kind)) n := by
  rw [parse_eq_ok_iff_descent]
  constructor
  -- what the descent read derives the tree, and the EOF after it is the last token
  · rintro ⟨q, e', vs, hor, hrest, he'⟩
    obtain ⟨us, hus, hderives, hcount, hmax⟩ := (Parser.descent_sound _).1 _ _ _ hor
    rw [hrest] at hus
    obtain ⟨rfl, -⟩ := append_eof_inj he' hts hus
    have := hmax (Nat.zero_le _)
    refine ⟨hderives, ?_⟩
    omega
  · rintro ⟨hderives, hle⟩
    have hnext (k : TokenKind) (hk : k ≠ .eof) : Parser.NotNext k [e] :=
      ⟨e, [], rfl, fun h => hk (h.symm.trans he)⟩
    obtain ⟨depth, hor⟩ := (Parser.derives_complete hderives ts rfl).or_ok (hnext .and (by decide))
      (hnext .or (by decide)) 0 (by omega)
    -- the depth of the source's call suffices, so it ends as the deeper call does
    refine ⟨⟨[e], 0 + n.conditions⟩, e, [], ?_, rfl, he⟩
    have hfinishes := (Parser.descent_finishes T (4 * (ts ++ [e]).length + 3)).1 ⟨ts ++ [e], 0⟩
      (Nat.le_refl _)
    exact Parser.parseOr_eq_ok hfinishes.1 hor

theorem parse_ne_pastEnd {tokens : List Token} (h : Parser.EndsInEof ⟨tokens, 0⟩) :
    parse T tokens ≠ .error .pastEnd := by
  have hdescent := (Parser.descent_stays T (4 * tokens.length + 3)).1 ⟨tokens, 0⟩ h
  simp only [parse]
  cases hor : Parser.parseOr T (4 * tokens.length + 3) ⟨tokens, 0⟩ with
  | error stop =>
      intro hstop
      cases hstop
      exact hdescent.1 hor
  | ok x =>
      obtain ⟨t, hpeek, -⟩ := (hdescent.2 x.1 x.2 hor).peek
      show (x.2.peek >>= _) ≠ _
      rw [hpeek]
      show ite _ _ _ ≠ _
      split <;> exact fun h => by cases h

/-! ### Rendered trees -/

variable {T}

theorem lower_key (hT : T.KeepsLower) {name : String} (h : name ∈ fieldCatalog.keys) :
    T.lower name.toList = name.toList := by
  apply hT
  have hall : (fieldCatalog.keys.all fun k =>
      k.toList.all fun c => c.isLower || c.isDigit || c == '_') = true := by decide
  intro c hc
  have hname := List.all_eq_true.1 (List.all_eq_true.1 hall name h) c hc
  simpa [or_assoc] using hname

theorem derives_render (hT : T.KeepsLower) (n : ASTNode) : Derives T .atom n.render n := by
  induction n with
  | condition c =>
      apply Derives.condition c
      have hkey : c.fieldName ∈ fieldCatalog.keys := Dict.mem_keys_iff.2 ⟨_, c.known⟩
      rw [lower_key hT hkey]
      exact String.ofList_toList
  | binaryOp op left right ihLeft ihRight =>
      apply Derives.paren
      cases op with
      | and => exact .orSingle (.andMore (.andSingle ihLeft) ihRight)
      | or => exact .orMore (.orSingle (.andSingle ihLeft)) (.andSingle ihRight)

theorem eof_notMem_render (n : ASTNode) : TokenKind.eof ∉ n.render := by
  induction n with
  | condition c =>
      obtain ⟨name, o, v, fd, known, allowed, fits⟩ := c
      cases o <;> cases v <;> simp [ASTNode.render, Operator.token, Literal.token]
  | binaryOp op left right ihLeft ihRight =>
      cases op <;> simp [ASTNode.render, Connective.token, ihLeft, ihRight]

variable (T)

end Parse

/-- The tokens of `Market_Cap > 5 OR beta < 1 AND sector = "Energy"`, without positions. -/
def mixedSentence : List TokenKind :=
  [.field "Market_Cap".toList, .op .gt, .valueNum (.int 5), .or,
    .field "beta".toList, .op .lt, .valueNum (.int 1), .and,
    .field "sector".toList, .op .eq, .valueStr "Energy".toList]

end AsetPlatform.ScreenQL
