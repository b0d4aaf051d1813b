import DbProxy.Router.Value

/-!
# Syntax trees

The statements and expressions that the planner takes apart.  A tree goes through two phases: as the parser returns
it, and after planning, when some of its nodes have been replaced by decorators.  `Phase` says what a phase knows
about a column, an `IN`, a `BETWEEN`, a table name and the rows of an `INSERT`, so a tree from the parser cannot hold
a decorator.

Only the node types that the planner inspects have a constructor of their own.  Every other expression is a `node`:
its Go type, and the texts and expressions that its `Restore` prints, in order.  A name that the tree holds outside a
`ColumnNameExpr` (`DEFAULT(t.c)`, a table in a subquery) is a text, because no visitor replaces it.
-/

namespace DbProxy

/-- `model.CIStr`: a name as written and in lower case. -/
structure CIStr where
  o : String
  l : String
  deriving DecidableEq, Repr

def CIStr.empty : CIStr := ⟨"", ""⟩

structure ColumnName where
  schema : CIStr
  table : CIStr
  name : CIStr
  deriving DecidableEq, Repr

structure TableName where
  schema : CIStr
  name : CIStr
  partitionNames : List CIStr := []
  indexHints : List String := []
  deriving DecidableEq, Repr

/-- The literals of a statement.  `other` holds the text of a decimal, a bit string, a time and so on. -/
inductive Datum where
  | null
  | int64 (n : Int64)
  | uint64 (n : UInt64)
  | float32 (text : GoString)
  | float64 (text : GoString)
  | string (s : GoString)
  | other (text : GoString)
  deriving DecidableEq, Repr

/-- `util.GetValueExprResult`. -/
def Datum.value : Datum → GoVal
  | .null => .nil
  | .int64 n => .int64 n.toInt
  | .uint64 n => .uint64 n.toNat
  | .float32 t => .float32 t
  | .float64 t => .float64 t
  | .string s => .string s
  | .other t => .string t

/-- `GetInt64`: the integer field, whatever the kind. -/
def Datum.getInt64 : Datum → Int
  | .int64 n => n.toInt
  | .uint64 n => toInt64 n.toNat
  | _ => 0

/-- `GetString`: the bytes field, whatever the kind. -/
def Datum.getString : Datum → GoString
  | .string s => s
  | _ => []

/-- A piece of restored SQL.  Names keep their parts, so that a statement can be searched for a table. -/
inductive Tok where
  | text (s : String)
  | name (s : String)
  | value (v : Datum)
  | column (schema : String) (table : CIStr) (name : String)
  | wildcard (schema : String) (table : CIStr)
  | table (schema : String) (name : CIStr)
  deriving DecidableEq, Repr

inductive Op where
  | logicAnd
  | logicOr
  | eq
  | ne
  | lt
  | le
  | gt
  | ge
  | other (text : String)
  deriving DecidableEq, Repr

/-- What a tree of this phase carries at a column, an `IN`, a `BETWEEN`, a table name and the rows of an `INSERT`. -/
structure Phase where
  Column : Type
  PatternIn : Type
  Between : Type
  Table : Type
  Rows : Type

/-- The trees of the parser. -/
@[reducible] def Parsed : Phase := ⟨Unit, Unit, Unit, Unit, Unit⟩

/-- `valuesOf none` is a `VALUES` whose column pointer is nil. -/
inductive Expr (P : Phase) where
  | value (v : Datum)
  | column (a : P.Column) (c : ColumnName)
  | binary (op : Op) (l r : Expr P)
  | patternIn (a : P.PatternIn) (e : Expr P) (list : List (Expr P)) (sel : Option (Expr P)) (not : Bool)
  | between (a : P.Between) (e left right : Expr P) (not : Bool)
  | paren (e : Expr P)
  | funcCall (fnName : CIStr) (parts : List (Expr P))
  | aggregate (f : String) (parts : List (Expr P))
  | valuesOf (c : Option ColumnName)
  | text (t : Tok)
  | node (type : String) (parts : List (Expr P))

/-- What `%T` prints. -/
def Expr.typeName {P : Phase} : Expr P → String
  | .value _ => "*driver.ValueExpr"
  | .column _ _ => "*ast.ColumnNameExpr"
  | .binary .. => "*ast.BinaryOperationExpr"
  | .patternIn .. => "*ast.PatternInExpr"
  | .between .. => "*ast.BetweenExpr"
  | .paren _ => "*ast.ParenthesesExpr"
  | .funcCall .. => "*ast.FuncCallExpr"
  | .aggregate .. => "*ast.AggregateFuncExpr"
  | .valuesOf _ => "*ast.ValuesExpr"
  | .text _ => ""
  | .node type _ => type

/-! ### Clauses -/

inductive SelectField (P : Phase) where
  | wildcard (schema table : CIStr)
  | expr (e : Expr P) (asName : CIStr)

structure ByItem (P : Phase) where
  expr : Expr P
  desc : Bool

/-- The bounds are never rewritten in place; a new limit is made instead. -/
structure Limit where
  count : Expr Parsed
  offset : Option (Expr Parsed)

inductive JoinType where
  | cross
  | left
  | right
  deriving DecidableEq, Repr

/-- The right side of a join: a table source, or the nested join that the planner refuses. -/
inductive JoinRight (S : Type) where
  | source (s : S)
  | join

/-- A join without its left side, over sources of type `S`. -/
structure JoinTail (S : Type) (P : Phase) where
  right : Option (JoinRight S) := none
  tp : JoinType := .cross
  natural : Bool := false
  straight : Bool := false
  on : Option (Expr P) := none
  using_ : List ColumnName := []

/-- A `FROM` clause.  The left side is a table source or another join; one table is a join with no right side. -/
inductive Join (S : Type) (P : Phase) where
  | ofSource (left : S) (tail : JoinTail S P)
  | ofJoin (left : Join S P) (tail : JoinTail S P)

def Join.tail {S : Type} {P : Phase} : Join S P → JoinTail S P
  | .ofSource _ tail => tail
  | .ofJoin _ tail => tail

/-- A table source inside a subquery; a subquery there is refused unread. -/
inductive InnerSource (P : Phase) where
  | table (a : P.Table) (name : TableName) (asName : CIStr)
  | select

/-- The clauses of a `SELECT` over sources of type `S`. -/
structure SelectClauses (S : Type) (P : Phase) where
  options : List Tok := []
  distinct : Bool := false
  fields : List (SelectField P)
  tableRefs : Option (Join S P)
  cond : Option (Expr P) := none
  groupBy : Option (List (ByItem P)) := none
  having : Option (Expr P) := none
  windows : List (Expr P) := []
  orderBy : Option (List (ByItem P)) := none
  limit : Option Limit := none
  lock : List Tok := []

inductive TableSource (P : Phase) where
  | table (a : P.Table) (name : TableName) (asName : CIStr)
  | select (s : SelectClauses (InnerSource P) P) (asName : CIStr)

/-! ### Statements -/

abbrev SelectStmt (P : Phase) := SelectClauses (TableSource P) P

/-- `column = expr`; the planner never replaces either side. -/
structure Assignment where
  column : ColumnName
  expr : Expr Parsed

structure UpdateStmt (P : Phase) where
  options : List Tok := []
  tableRefs : Join (TableSource P) P
  list : List Assignment
  cond : Option (Expr P) := none
  order : Option (List (ByItem P)) := none
  limit : Option Limit := none

/-- `tables` are the targets of a multi-table `DELETE`, which the planner leaves as they are. -/
structure DeleteStmt (P : Phase) where
  options : List Tok := []
  tables : List TableName := []
  tableRefs : Join (TableSource P) P
  cond : Option (Expr P) := none
  order : Option (List (ByItem P)) := none
  limit : Option Limit := none

/-- `INSERT` and `REPLACE`.  `select` says that the rows come from a query, which the planner refuses. -/
structure InsertStmt (P : Phase) where
  listsAssist : P.Rows
  isReplace : Bool := false
  options : List Tok := []
  tableRefs : Join (TableSource P) P
  columns : List ColumnName := []
  lists : List (List (Expr Parsed)) := []
  setlist : List Assignment := []
  onDuplicate : Option (List Assignment) := none
  select : Bool := false

end DbProxy
