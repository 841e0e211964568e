import Grove.Shell.Numeral

/-!
# Shell arithmetic

The expressions between double parentheses. An expression is read from its text as a tree; the value
of the tree is a word of 64 bits. Names stand for the numbers that the shell's variables hold, and an
assignment changes what they hold for the rest of the expression and after it.
-/

namespace Grove.Shell

/-- Why an arithmetic expression has no value. -/
inductive ExpressionFault where
  /-- An operand is missing. -/
  | noOperand
  /-- Something follows the expression. -/
  | noEnd
  /-- A parenthesis is not closed. -/
  | noParenthesis
  /-- A choice lacks its second part. -/
  | noColon
  /-- Something was divided by zero. -/
  | zeroDivisor
  /-- A variable holds no number. -/
  | noNumber (text : String)
  deriving DecidableEq

/-- The complaint about a fault in an expression. -/
def ExpressionFault.message (expression : String) : ExpressionFault → String
  | .noOperand => "arithmetic expression: expecting primary: \"" ++ expression ++ "\""
  | .noEnd => "arithmetic expression: expecting EOF: \"" ++ expression ++ "\""
  | .noParenthesis => "arithmetic expression: expecting ')': \"" ++ expression ++ "\""
  | .noColon => "arithmetic expression: expecting ':': \"" ++ expression ++ "\""
  | .zeroDivisor => "arithmetic expression: division by zero: \"" ++ expression ++ "\""
  | .noNumber text => "Illegal number: " ++ text

/-- An operator between two operands. -/
inductive BinaryOperator where
  /-- Whether either is true. -/
  | or
  /-- Whether both are true. -/
  | and
  /-- The bits of either. -/
  | bitOr
  /-- The bits of one of them alone. -/
  | bitXor
  /-- The bits of both. -/
  | bitAnd
  /-- Whether they are equal. -/
  | equal
  /-- Whether they differ. -/
  | unequal
  /-- Whether the first is smaller. -/
  | less
  /-- Whether the first is not greater. -/
  | atMost
  /-- Whether the first is greater. -/
  | greater
  /-- Whether the first is not smaller. -/
  | atLeast
  /-- The bits of the first moved up. -/
  | shiftLeft
  /-- The bits of the first moved down. -/
  | shiftRight
  /-- Their sum. -/
  | plus
  /-- Their difference. -/
  | minus
  /-- Their product. -/
  | times
  /-- Their quotient, toward zero. -/
  | quotient
  /-- What the quotient leaves. -/
  | remainder
  deriving DecidableEq

namespace BinaryOperator

/-- The operators as they are written. -/
def written : List (String × BinaryOperator) :=
  [("||", .or), ("&&", .and), ("|", .bitOr), ("^", .bitXor), ("&", .bitAnd), ("==", .equal),
    ("!=", .unequal), ("<", .less), ("<=", .atMost), (">", .greater), (">=", .atLeast),
    ("<<", .shiftLeft), (">>", .shiftRight), ("+", .plus), ("-", .minus), ("*", .times),
    ("/", .quotient), ("%", .remainder)]

/-- How strongly an operator binds. -/
def strength : BinaryOperator → Nat
  | or => 1
  | and => 2
  | bitOr => 3
  | bitXor => 4
  | bitAnd => 5
  | equal | unequal => 6
  | less | atMost | greater | atLeast => 7
  | shiftLeft | shiftRight => 8
  | plus | minus => 9
  | times | quotient | remainder => 10

/-- A truth value as a number. -/
def truth (p : Bool) : Int64 :=
  if p then 1 else 0

/-- Applies an operator; nothing is divided by zero. -/
def apply (operator : BinaryOperator) (a b : Int64) : Except ExpressionFault Int64 :=
  match operator with
  | or => .ok (truth (a != 0 || b != 0))
  | and => .ok (truth (a != 0 && b != 0))
  | bitOr => .ok (a ||| b)
  | bitXor => .ok (a ^^^ b)
  | bitAnd => .ok (a &&& b)
  | equal => .ok (truth (a == b))
  | unequal => .ok (truth (a != b))
  | less => .ok (truth (a < b))
  | atMost => .ok (truth (a ≤ b))
  | greater => .ok (truth (b < a))
  | atLeast => .ok (truth (b ≤ a))
  | shiftLeft => .ok (a <<< b)
  | shiftRight => .ok (a >>> b)
  | plus => .ok (a + b)
  | minus => .ok (a - b)
  | times => .ok (a * b)
  | quotient => if b = 0 then .error .zeroDivisor else .ok (a / b)
  | remainder => if b = 0 then .error .zeroDivisor else .ok (a % b)

end BinaryOperator

/-- An operator before one operand. -/
inductive UnaryOperator where
  /-- The operand itself. -/
  | plus
  /-- The operand with the other sign. -/
  | minus
  /-- Whether the operand is false. -/
  | not
  /-- The bits that the operand lacks. -/
  | complement
  deriving DecidableEq

namespace UnaryOperator

/-- The operators as they are written. -/
def written : List (String × UnaryOperator) :=
  [("+", .plus), ("-", .minus), ("!", .not), ("~", .complement)]

/-- Applies an operator. -/
def apply (operator : UnaryOperator) (a : Int64) : Int64 :=
  match operator with
  | plus => a
  | minus => -a
  | not => BinaryOperator.truth (a == 0)
  | complement => ~~~a

end UnaryOperator

/-- An arithmetic expression. -/
inductive Expression where
  /-- A number. -/
  | number (value : Int64)
  /-- What a variable holds. -/
  | name (name : String)
  /-- An operator before its operand. -/
  | unary (operator : UnaryOperator) (operand : Expression)
  /-- An operator between its operands. -/
  | binary (operator : BinaryOperator) (left right : Expression)
  /-- One of two expressions. -/
  | choice (condition yes no : Expression)
  /-- A variable that takes a value, combined with its old one if there is an operator. -/
  | assign (name : String) (operator? : Option BinaryOperator) (value : Expression)

/-! ### Tokens -/

/-- A token of an expression. -/
inductive ExpressionToken where
  /-- A number. -/
  | number (value : Int64)
  /-- A name. -/
  | name (name : String)
  /-- An operator, a parenthesis or another sign. -/
  | symbol (text : String)
  deriving DecidableEq

/-- The operators that assign, each with the one that it combines values by. -/
def assignments : List (String × Option BinaryOperator) :=
  [("=", none), ("+=", some .plus), ("-=", some .minus), ("*=", some .times),
    ("/=", some .quotient), ("%=", some .remainder), ("<<=", some .shiftLeft),
    (">>=", some .shiftRight), ("&=", some .bitAnd), ("^=", some .bitXor), ("|=", some .bitOr)]

/-- The signs of expressions. -/
def symbols : List String :=
  assignments.map (·.1) ++ BinaryOperator.written.map (·.1) ++ UnaryOperator.written.map (·.1) ++
    ["(", ")", "?", ":"]

/-- The longest sign at the start of a text. -/
def symbol? (cs : List Char) : Option String :=
  ([3, 2, 1].map fun n => String.ofList (cs.take n)).find? (· ∈ symbols)

/-- The tokens of an expression. -/
def expressionTokens (fuel : Nat) (cs : List Char) :
    Except ExpressionFault (List ExpressionToken) :=
  match fuel, cs with
  | _, [] => .ok []
  | 0, _ => .error .noOperand
  | fuel + 1, c :: rest =>
    if isWhite c then expressionTokens fuel rest
    else if c.isAlpha ∨ c = '_' then do
      let isPart (c : Char) : Bool := c.isAlphanum || c = '_'
      let tokens ← expressionTokens fuel (cs.dropWhile isPart)
      .ok (.name (String.ofList (cs.takeWhile isPart)) :: tokens)
    else
      match readNumeral? cs with
      | some (n, rest) => do
        let tokens ← expressionTokens fuel rest
        .ok (.number (nearestWord n) :: tokens)
      | none =>
        match symbol? cs with
        | some text => do
          let tokens ← expressionTokens fuel (cs.drop text.length)
          .ok (.symbol text :: tokens)
        | none => .error .noOperand

/-! ### Reading -/

/-- What was read at the start of some tokens, with those that are left. -/
abbrev Reading := Except ExpressionFault (Expression × List ExpressionToken)

mutual

/-- Reads an operand. -/
def readOperand (fuel : Nat) (tokens : List ExpressionToken) : Reading :=
  match fuel, tokens with
  | 0, _ => .error .noOperand
  | _, .number value :: rest => .ok (.number value, rest)
  | _, .name name :: rest => .ok (.name name, rest)
  | fuel + 1, .symbol "(" :: rest => do
    let (inner, rest) ← readAssignment fuel rest
    match rest with
    | .symbol ")" :: rest => .ok (inner, rest)
    | _ => .error .noParenthesis
  | fuel + 1, .symbol text :: rest =>
    match UnaryOperator.written.lookup text with
    | some operator => (readOperand fuel rest).map fun (x, rest) => (.unary operator x, rest)
    | none => .error .noOperand
  | _, [] => .error .noOperand

/-- Reads the operators that follow an operand and bind at least as strongly as `least`. -/
def readCombined (fuel least : Nat) (left : Expression) (tokens : List ExpressionToken) : Reading :=
  match fuel, tokens with
  | 0, _ => .error .noOperand
  | fuel + 1, .symbol text :: rest =>
    match BinaryOperator.written.lookup text with
    | none => .ok (left, tokens)
    | some operator =>
      if operator.strength < least then .ok (left, tokens)
      else do
        let (first, rest) ← readOperand fuel rest
        let (right, rest) ← readCombined fuel (operator.strength + 1) first rest
        readCombined fuel least (.binary operator left right) rest
  | _, _ => .ok (left, tokens)

/-- Reads a choice, or an expression without one. -/
def readChoice (fuel : Nat) (tokens : List ExpressionToken) : Reading :=
  match fuel with
  | 0 => .error .noOperand
  | fuel + 1 => do
    let (first, rest) ← readOperand fuel tokens
    let (condition, rest) ← readCombined fuel 1 first rest
    match rest with
    | .symbol "?" :: rest =>
      let (yes, rest) ← readAssignment fuel rest
      match rest with
      | .symbol ":" :: rest =>
        let (no, rest) ← readChoice fuel rest
        .ok (.choice condition yes no, rest)
      | _ => .error .noColon
    | _ => .ok (condition, rest)

/-- Reads an assignment, or an expression without one. -/
def readAssignment (fuel : Nat) (tokens : List ExpressionToken) : Reading :=
  match fuel with
  | 0 => .error .noOperand
  | fuel + 1 =>
    match tokens with
    | .name name :: .symbol text :: rest =>
      match assignments.lookup text with
      | some operator? =>
        (readAssignment fuel rest).map fun (value, rest) => (.assign name operator? value, rest)
      | none => readChoice fuel tokens
    | _ => readChoice fuel tokens

end

/-- The expression that a text writes. -/
def Expression.read (text : List Char) : Except ExpressionFault Expression := do
  let tokens ← expressionTokens (text.length + 1) text
  let (sum, rest) ← readAssignment (4 * tokens.length + 4) tokens
  if rest.isEmpty then .ok sum else .error .noEnd

/-! ### Values -/

/-- The numbers that variables hold, as changes to those of the shell; the latest come first. -/
abbrev Holdings := List (String × Int64)

/-- The number that a variable holds. -/
def Holdings.get (h : Holdings) (lookup : String → String) (name : String) :
    Except ExpressionFault Int64 :=
  match h.lookup name with
  | some n => .ok n
  | none =>
    match valueOf? (lookup name) with
    | some n => .ok n
    | none => .error (.noNumber (lookup name))

/-- The value of an expression, with what its variables hold afterwards. The right side of a truth
operator counts only if the left side leaves the answer open. -/
def Expression.value (lookup : String → String) (h : Holdings) :
    Expression → Except ExpressionFault (Int64 × Holdings)
  | .number n => .ok (n, h)
  | .name x => do .ok (← h.get lookup x, h)
  | .unary operator x => do
    let (n, h) ← x.value lookup h
    .ok (operator.apply n, h)
  | .binary operator x y => do
    let (a, h) ← x.value lookup h
    if operator = .or ∧ a ≠ 0 then .ok (1, h)
    else if operator = .and ∧ a = 0 then .ok (0, h)
    else
      let (b, h) ← y.value lookup h
      .ok (← operator.apply a b, h)
  | .choice condition yes no => do
    let (c, h) ← condition.value lookup h
    if c ≠ 0 then yes.value lookup h else no.value lookup h
  | .assign x operator? y => do
    let (b, h) ← y.value lookup h
    match operator? with
    | none => .ok (b, (x, b) :: h)
    | some operator =>
      let n ← operator.apply (← h.get lookup x) b
      .ok (n, (x, n) :: h)

/-- The value of the expression that a text writes, with what variables hold afterwards. -/
def expressionValue (lookup : String → String) (text : List Char) :
    Except ExpressionFault (Int64 × Holdings) := do
  (← Expression.read text).value lookup []

end Grove.Shell
