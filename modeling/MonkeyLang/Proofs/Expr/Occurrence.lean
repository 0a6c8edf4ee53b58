import MonkeyLang.Expr

namespace MonkeyLang

mutual

/-- The statements of an expression that act on the scope in which it is evaluated. Those of a
function literal do not, since they wait for a call. -/
def Expr.ownStmts : Expr → List Stmt
  | .ident _ | .int _ | .string _ | .bool _ | .null | .function _ _ => []
  | .unary _ operand => operand.ownStmts
  | .binary left _ right => left.ownStmts ++ right.ownStmts
  | .cond test yes none => test.ownStmts ++ ownStmts yes
  | .cond test yes (some no) => test.ownStmts ++ (ownStmts yes ++ ownStmts no)
  | .ternary test yes no => test.ownStmts ++ (yes.ownStmts ++ no.ownStmts)
  | .call callee args => callee.ownStmts ++ itemStmts args
  | .array items => itemStmts items
  | .hash pairs => pairStmts pairs
  | .index left index => left.ownStmts ++ index.ownStmts

def itemStmts : List Expr → List Stmt
  | [] => []
  | item :: rest => item.ownStmts ++ itemStmts rest

def pairStmts : List (Expr × Expr) → List Stmt
  | [] => []
  | (key, value) :: rest => key.ownStmts ++ (value.ownStmts ++ pairStmts rest)

def Stmt.ownStmts : Stmt → List Stmt
  | .bind name value => .bind name value :: value.ownStmts
  | .ret none => [.ret none]
  | .ret (some value) => .ret (some value) :: value.ownStmts
  | .expr value => .expr value :: value.ownStmts

/-- The statements of a block that act on the scope in which it is evaluated, those inside other
statements included. -/
def ownStmts : List Stmt → List Stmt
  | [] => []
  | stmt :: rest => stmt.ownStmts ++ ownStmts rest

end

mutual

/-- The names that an expression mentions, those in the bodies of function literals included. What a
`let` binds and what a function takes is not mentioned by that alone. -/
def Expr.idents : Expr → List String
  | .ident name => [name]
  | .int _ | .string _ | .bool _ | .null => []
  | .unary _ operand => operand.idents
  | .binary left _ right => left.idents ++ right.idents
  | .cond test yes none => test.idents ++ idents yes
  | .cond test yes (some no) => test.idents ++ (idents yes ++ idents no)
  | .ternary test yes no => test.idents ++ (yes.idents ++ no.idents)
  | .function _ body => idents body
  | .call callee args => callee.idents ++ itemIdents args
  | .array items => itemIdents items
  | .hash pairs => pairIdents pairs
  | .index left index => left.idents ++ index.idents

def itemIdents : List Expr → List String
  | [] => []
  | item :: rest => item.idents ++ itemIdents rest

def pairIdents : List (Expr × Expr) → List String
  | [] => []
  | (key, value) :: rest => key.idents ++ (value.idents ++ pairIdents rest)

def Stmt.idents : Stmt → List String
  | .bind _ value => value.idents
  | .ret none => []
  | .ret (some value) => value.idents
  | .expr value => value.idents

/-- The names that a block mentions. -/
def idents : List Stmt → List String
  | [] => []
  | stmt :: rest => stmt.idents ++ idents rest

end

/-- A place in code at which names stand: where one is used, where a `let` binds one, and the list
of parameters of a function literal. -/
inductive Mention where
  | ident (name : String)
  | target (name : String)
  | function (params : List String)

/-- The names that stand at a place. -/
def Mention.names : Mention → List String
  | ident name | target name => [name]
  | function params => params

mutual

/-- The places in an expression at which names stand, those in the bodies of function literals
included. -/
def Expr.mentions : Expr → List Mention
  | .ident name => [.ident name]
  | .int _ | .string _ | .bool _ | .null => []
  | .unary _ operand => operand.mentions
  | .binary left _ right => left.mentions ++ right.mentions
  | .cond test yes none => test.mentions ++ mentions yes
  | .cond test yes (some no) => test.mentions ++ (mentions yes ++ mentions no)
  | .ternary test yes no => test.mentions ++ (yes.mentions ++ no.mentions)
  | .function params body => .function params :: mentions body
  | .call callee args => callee.mentions ++ itemMentions args
  | .array items => itemMentions items
  | .hash pairs => pairMentions pairs
  | .index left index => left.mentions ++ index.mentions

def itemMentions : List Expr → List Mention
  | [] => []
  | item :: rest => item.mentions ++ itemMentions rest

def pairMentions : List (Expr × Expr) → List Mention
  | [] => []
  | (key, value) :: rest => key.mentions ++ (value.mentions ++ pairMentions rest)

def Stmt.mentions : Stmt → List Mention
  | .bind name value => .target name :: value.mentions
  | .ret none => []
  | .ret (some value) => value.mentions
  | .expr value => value.mentions

/-- The places in a block at which names stand. -/
def mentions : List Stmt → List Mention
  | [] => []
  | stmt :: rest => stmt.mentions ++ mentions rest

end

/-- All names in a block, whatever they stand for. -/
def names (block : List Stmt) : List String := (mentions block).flatMap Mention.names

/-- The name that is used at a place. -/
def Mention.ident? : Mention → Option String
  | ident name => some name
  | _ => none

mutual

/-- The names that an expression mentions are those that it uses somewhere. -/
theorem Expr.filterMap_mentions : (expr : Expr) →
    expr.mentions.filterMap Mention.ident? = expr.idents
  | .ident _ => rfl
  | .int _ | .string _ | .bool _ | .null => rfl
  | .unary _ operand => operand.filterMap_mentions
  | .binary left _ right => by
    rw [Expr.mentions, Expr.idents, List.filterMap_append, left.filterMap_mentions,
      right.filterMap_mentions]
  | .cond test yes none => by
    rw [Expr.mentions, Expr.idents, List.filterMap_append, test.filterMap_mentions,
      filterMap_mentions yes]
  | .cond test yes (some no) => by
    rw [Expr.mentions, Expr.idents, List.filterMap_append, List.filterMap_append,
      test.filterMap_mentions, filterMap_mentions yes, filterMap_mentions no]
  | .ternary test yes no => by
    rw [Expr.mentions, Expr.idents, List.filterMap_append, List.filterMap_append,
      test.filterMap_mentions, yes.filterMap_mentions, no.filterMap_mentions]
  | .function _ body => filterMap_mentions body
  | .call callee args => by
    rw [Expr.mentions, Expr.idents, List.filterMap_append, callee.filterMap_mentions,
      filterMap_itemMentions args]
  | .array items => filterMap_itemMentions items
  | .hash pairs => filterMap_pairMentions pairs
  | .index left index => by
    rw [Expr.mentions, Expr.idents, List.filterMap_append, left.filterMap_mentions,
      index.filterMap_mentions]

theorem filterMap_itemMentions : (items : List Expr) →
    (itemMentions items).filterMap Mention.ident? = itemIdents items
  | [] => rfl
  | item :: rest => by
    rw [itemMentions, itemIdents, List.filterMap_append, item.filterMap_mentions,
      filterMap_itemMentions rest]

theorem filterMap_pairMentions : (pairs : List (Expr × Expr)) →
    (pairMentions pairs).filterMap Mention.ident? = pairIdents pairs
  | [] => rfl
  | (key, value) :: rest => by
    rw [pairMentions, pairIdents, List.filterMap_append, List.filterMap_append,
      key.filterMap_mentions, value.filterMap_mentions, filterMap_pairMentions rest]

theorem Stmt.filterMap_mentions : (stmt : Stmt) →
    stmt.mentions.filterMap Mention.ident? = stmt.idents
  | .bind _ value => value.filterMap_mentions
  | .ret none => rfl
  | .ret (some value) => value.filterMap_mentions
  | .expr value => value.filterMap_mentions

theorem filterMap_mentions : (block : List Stmt) →
    (mentions block).filterMap Mention.ident? = idents block
  | [] => rfl
  | stmt :: rest => by
    rw [mentions, idents, List.filterMap_append, stmt.filterMap_mentions, filterMap_mentions rest]

end

end MonkeyLang
