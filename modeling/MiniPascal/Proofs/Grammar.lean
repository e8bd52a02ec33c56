import MiniPascal.Operator

/-!
# Trees and the grammar

The language as a grammar with trees, apart from any way of reading it.

```text
program      → PROGRAM identifier ; declarations compound .
declarations → [VAR group ; {group ;}]
group        → identifier {, identifier} : type
statement    → compound | assignment | loop | nothing
compound     → BEGIN statements END
statements   → statement {; statement}
assignment   → identifier := expression
loop         → REPEAT statements UNTIL comparison
comparison   → expression (>= | > | <= | < | = | <>) expression
expression   → term {(+ | -) term}
term         → factor {(* | DIV | / | %) factor}
factor       → (+ | -) expression | number | ( expression ) | identifier
```

A derivation takes a list of tokens with their places to a tree. Trees keep the places at which
faults are reported, so a tree says all that its text does. A repetition of operators is a left
recursion, which makes them associate to the left.

The grammar is ambiguous in one point: a sign stands in front of an expression, and the operators
after that expression may be given to the sign or not. `SignsTakeAll` is the choice that the
language makes, that a sign takes the longest expression after it: no operator stands to the right
of a sign unless parentheses come between.
-/

namespace MiniPascal.Grammar

/-! ## Trees -/

/-- An expression. -/
inductive Expression where
  | literal (v : Value) (place : Span)
  | named (name : String) (place : Span)
  | plus (place : Span) (operand : Expression)
  | minus (place : Span) (operand : Expression)
  | binary (op : Operator) (place : Span) (left right : Expression)
  | parens (place : Span) (inner : Expression)

/-- A comparison of two expressions. -/
structure Condition where
  comparison : Comparison
  left : Expression
  right : Expression

/-- A statement; several in a row are one too. -/
inductive Statement where
  | nothing
  | assign (name : String) (place : Span) (value : Expression)
  | compound (body : Statement)
  /-- A loop, whose `REPEAT` starts at a byte offset. -/
  | loop (start : Nat) (body : Statement) (condition : Condition)
  | sequence (first rest : Statement)

/-- Variables that are declared together. -/
structure Group where
  names : List (String × Span)
  type : DataType

/-- A program. -/
structure Program where
  name : String
  groups : List Group
  body : Statement

namespace Expression

/-- The byte offset an expression starts at. -/
def start : Expression → Nat
  | .literal _ place => place.start
  | .named _ place => place.start
  | .plus place _ => place.start
  | .minus place _ => place.start
  | .binary _ _ left _ => left.start
  | .parens place _ => place.start

/-- The byte offset an expression ends at. -/
def stop : Expression → Nat
  | .literal _ place => place.stop
  | .named _ place => place.stop
  | .plus _ operand => operand.stop
  | .minus _ operand => operand.stop
  | .binary _ _ _ right => right.stop
  | .parens place _ => place.stop

/-- The last operand of an expression has a sign. -/
def EndsInSign : Expression → Prop
  | .plus _ _ => True
  | .minus _ _ => True
  | .binary _ _ _ right => right.EndsInSign
  | _ => False

/-- Every sign takes the longest expression after it. -/
def SignsTakeAll : Expression → Prop
  | .literal _ _ => True
  | .named _ _ => True
  | .plus _ operand => operand.SignsTakeAll
  | .minus _ operand => operand.SignsTakeAll
  | .binary _ _ left right => ¬left.EndsInSign ∧ left.SignsTakeAll ∧ right.SignsTakeAll
  | .parens _ inner => inner.SignsTakeAll

end Expression

/-- Every sign takes the longest expression after it. -/
def Statement.SignsTakeAll : Statement → Prop
  | .nothing => True
  | .assign _ _ value => value.SignsTakeAll
  | .compound body => body.SignsTakeAll
  | .loop _ body condition =>
    body.SignsTakeAll ∧ condition.left.SignsTakeAll ∧ condition.right.SignsTakeAll
  | .sequence first rest => first.SignsTakeAll ∧ rest.SignsTakeAll

/-- The variables of a group with their types and places. -/
def Group.variables (g : Group) : List (String × DataType × Span) :=
  g.names.map fun (name, place) ↦ (name, g.type, place)

/-- The variables of a program with their types and places, in the order of the text. -/
def Program.variables (p : Program) : List (String × DataType × Span) :=
  p.groups.flatMap Group.variables

/-! ## Derivations -/

/-- The ranks of an expression, from the weakest operators to none. -/
inductive Rank where
  | expression
  | term
  | factor
  deriving DecidableEq, Repr

/-- Tokens make an expression, a term or a factor. -/
inductive Expression.Derives : Rank → List Lexeme → Expression → Prop
  | integer {l : Lexeme} {n : Int64} (h : l.token = .integer n) :
    Derives .factor [l] (.literal (.integer n) l.span)
  | real {l : Lexeme} {x : Float} (h : l.token = .real x) :
    Derives .factor [l] (.literal (.real x) l.span)
  | named {l : Lexeme} {name : String} (h : l.token = .identifier name) :
    Derives .factor [l] (.named name l.span)
  | plus {l : Lexeme} {ts : List Lexeme} {e : Expression} (h : l.token = .symbol .plus)
    (operand : Derives .expression ts e) : Derives .factor (l :: ts) (.plus l.span e)
  | minus {l : Lexeme} {ts : List Lexeme} {e : Expression} (h : l.token = .symbol .minus)
    (operand : Derives .expression ts e) : Derives .factor (l :: ts) (.minus l.span e)
  | parens {l r : Lexeme} {ts : List Lexeme} {e : Expression} (hl : l.token = .symbol .openParen)
    (inner : Derives .expression ts e) (hr : r.token = .symbol .closeParen) :
    Derives .factor (l :: (ts ++ [r])) (.parens ⟨l.span.start, r.span.stop⟩ e)
  | factor {ts : List Lexeme} {e : Expression} (h : Derives .factor ts e) : Derives .term ts e
  | product {l : Lexeme} {op : Operator} {ts us : List Lexeme} {e f : Expression}
    (left : Derives .term ts e) (h : Operator.multiplicative? l.token = some op)
    (right : Derives .factor us f) : Derives .term (ts ++ l :: us) (.binary op l.span e f)
  | term {ts : List Lexeme} {e : Expression} (h : Derives .term ts e) : Derives .expression ts e
  | sum {l : Lexeme} {op : Operator} {ts us : List Lexeme} {e f : Expression}
    (left : Derives .expression ts e) (h : Operator.additive? l.token = some op)
    (right : Derives .term us f) : Derives .expression (ts ++ l :: us) (.binary op l.span e f)

/-- Tokens make a comparison. -/
inductive Condition.Derives : List Lexeme → Condition → Prop
  | mk {l : Lexeme} {c : Comparison} {ts us : List Lexeme} {e f : Expression}
    (left : e.Derives .expression ts) (h : Comparison.ofToken? l.token = some c)
    (right : f.Derives .expression us) : Derives (ts ++ l :: us) ⟨c, e, f⟩

/-- The phrases that statements are made of. -/
inductive Phrase where
  | statement
  | statements
  | compound
  deriving DecidableEq, Repr

/-- Tokens make a statement, several statements, or several between `BEGIN` and `END`. -/
inductive Statement.Derives : Phrase → List Lexeme → Statement → Prop
  | nothing : Derives .statement [] .nothing
  | assign {l a : Lexeme} {name : String} {ts : List Lexeme} {e : Expression}
    (hl : l.token = .identifier name) (ha : a.token = .symbol .assign)
    (value : e.Derives .expression ts) : Derives .statement (l :: a :: ts) (.assign name l.span e)
  | compound {ts : List Lexeme} {s : Statement} (body : Derives .compound ts s) :
    Derives .statement ts (.compound s)
  | loop {l u : Lexeme} {ts us : List Lexeme} {s : Statement} {c : Condition}
    (hl : l.token = .keyword .loopRepeat) (body : Derives .statements ts s)
    (hu : u.token = .keyword .loopUntil) (condition : c.Derives us) :
    Derives .statement (l :: (ts ++ u :: us)) (.loop l.span.start s c)
  | single {ts : List Lexeme} {s : Statement} (h : Derives .statement ts s) :
    Derives .statements ts s
  | sequence {l : Lexeme} {ts us : List Lexeme} {s t : Statement}
    (first : Derives .statement ts s) (h : l.token = .symbol .semicolon)
    (rest : Derives .statements us t) : Derives .statements (ts ++ l :: us) (.sequence s t)
  | block {l r : Lexeme} {ts : List Lexeme} {s : Statement} (hl : l.token = .keyword .blockBegin)
    (body : Derives .statements ts s) (hr : r.token = .keyword .blockEnd) :
    Derives .compound (l :: (ts ++ [r])) s

/-- Tokens make names with commas between them. -/
inductive DerivesNames : List Lexeme → List (String × Span) → Prop
  | one {l : Lexeme} {name : String} (h : l.token = .identifier name) :
    DerivesNames [l] [(name, l.span)]
  | more {l c : Lexeme} {name : String} {ts : List Lexeme} {names : List (String × Span)}
    (h : l.token = .identifier name) (hc : c.token = .symbol .comma)
    (rest : DerivesNames ts names) : DerivesNames (l :: c :: ts) ((name, l.span) :: names)

/-- Tokens make a group of variables. -/
inductive Group.Derives : List Lexeme → Group → Prop
  | mk {c t : Lexeme} {type : DataType} {ts : List Lexeme} {names : List (String × Span)}
    (hnames : DerivesNames ts names) (hc : c.token = .symbol .colon)
    (ht : t.token.dataType? = some type) : Derives (ts ++ [c, t]) ⟨names, type⟩

/-- Tokens make groups with a semicolon after each. -/
inductive DerivesGroups : List Lexeme → List Group → Prop
  | one {l : Lexeme} {ts : List Lexeme} {g : Group} (group : g.Derives ts)
    (h : l.token = .symbol .semicolon) : DerivesGroups (ts ++ [l]) [g]
  | more {l : Lexeme} {ts us : List Lexeme} {g : Group} {gs : List Group} (group : g.Derives ts)
    (h : l.token = .symbol .semicolon) (rest : DerivesGroups us gs) :
    DerivesGroups (ts ++ l :: us) (g :: gs)

/-- Tokens make the declarations of a program. -/
inductive DerivesDeclarations : List Lexeme → List Group → Prop
  | none : DerivesDeclarations [] []
  | some {l : Lexeme} {ts : List Lexeme} {gs : List Group} (h : l.token = .keyword .var)
    (groups : DerivesGroups ts gs) : DerivesDeclarations (l :: ts) gs

/-- Tokens make a program. -/
inductive Program.Derives : List Lexeme → Program → Prop
  | mk {k l c d : Lexeme} {name : String} {ts us : List Lexeme} {gs : List Group} {s : Statement}
    (hk : k.token = .keyword .program) (hl : l.token = .identifier name)
    (hc : c.token = .symbol .semicolon) (declarations : DerivesDeclarations ts gs)
    (body : s.Derives .compound us) (hd : d.token = .symbol .dot) :
    Derives (k :: l :: c :: (ts ++ (us ++ [d]))) ⟨name, gs, s⟩

/-- The tokens, wherever they stand, make a program. -/
def Sentence (ts : List Token) : Prop :=
  ∃ (ls : List Lexeme) (p : Program), ls.map Lexeme.token = ts ∧ p.Derives ls

end MiniPascal.Grammar
