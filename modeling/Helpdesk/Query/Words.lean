import Helpdesk.Query.Statement

/-! Words that cannot stand as names in a statement, because the database reads them as part of its own
language. -/

namespace Helpdesk.Statement

def reservedWords : List String :=
  ["add", "all", "alter", "and", "as", "autoincrement", "between", "case", "check", "collate",
    "commit", "constraint", "create", "default", "deferrable", "delete", "distinct", "drop", "else",
    "escape", "except", "exists", "foreign", "from", "group", "having", "in", "index", "insert",
    "intersect", "into", "is", "isnull", "join", "limit", "not", "nothing", "notnull", "null", "on",
    "or", "order", "primary", "references", "returning", "select", "set", "table", "then", "to",
    "transaction", "union", "unique", "update", "using", "values", "when", "where"]

def isReserved (word : String) : Bool :=
  reservedWords.contains (String.ofList (word.toList.map Char.toLower))

def columnWords (c : Column) : List String := [c.qualifier, c.field]

def badWord? (s : Statement) : Option String :=
  let names := s.table :: s.joins.flatMap fun j => [j.table, j.key] ++ columnWords j.source
  (names ++ s.clause.columns.flatMap columnWords).find? isReserved

end Helpdesk.Statement
