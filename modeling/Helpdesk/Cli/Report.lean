import Helpdesk.Document.JsonText
import Helpdesk.Notice
import Helpdesk.Query.Statement
import Helpdesk.Record

/-! What the commands report, as text for people and as documents. -/

namespace Helpdesk.Cli

structure Explanation where
  rule : String
  className : String
  statement : Statement

namespace Explanation

def parameterLine (place : Nat) (value : Value) : String :=
  "\n  " ++ Clause.placeText place ++ " = " ++ value.toText

def parameterText : List Value → String
  | [] => ""
  | values => "\n\nParameters:" ++
    String.join (values.zipIdx.map fun (value, i) => parameterLine (i + 1) value)

def toText (e : Explanation) : String :=
  "Rule:   " ++ e.rule ++ "\nTarget: " ++ e.className ++ " (" ++ e.statement.table ++
    ")\nSQL:    " ++ e.statement.toSql ++ parameterText e.statement.parameters

def toDocument (e : Explanation) : Document :=
  .table [("rule", .text e.rule), ("target", .text e.className), ("table", .text e.statement.table),
    ("sql", .text e.statement.toSql),
    ("params", .list (e.statement.parameters.map Value.toDocument))]

end Explanation

structure Matches where
  rule : String
  className : String
  records : List Record

namespace Matches

def plainText (v : Value) : String := v.text?.getD v.toText

def label (r : Record) : String :=
  match r.get? "key", r.get? "subject" with
  | some key, some subject => plainText key ++ "  " ++ plainText subject
  | some key, none => plainText key
  | none, _ => (Record.toDocument r).toJson

def toText (m : Matches) : String :=
  match m.records with
  | [] => "No matching targets"
  | records => Predicate.joinTexts "\n" (records.map label)

def toDocument (m : Matches) : Document :=
  .table [("rule", .text m.rule), ("target", .text m.className), ("count", .int m.records.length),
    ("targets", .list (m.records.map Record.toDocument))]

end Matches

structure Preview where
  subject : String
  options : NoticeOptions
  attachments : List Change

namespace Preview

def changeLine (c : Change) : String :=
  "\n  " ++ c.fieldName ++ ": " ++ c.old.toText ++ " -> " ++ c.new.toText

def changeSection (title : String) : List Change → String
  | [] => ""
  | changes => "\n\n" ++ title ++ ":" ++ String.join (changes.map changeLine)

def toText (p : Preview) : String :=
  "Subject:  " ++ p.subject ++ "\nTemplate: " ++ Notice.htmlTemplate ++ "\n" ++ p.options.delimiter ++
    "\n" ++ p.options.header ++ "\nReporter: " ++ p.options.user ++
    changeSection "Changes" p.options.changes ++ changeSection "Attachments" p.attachments ++
    (if p.options.toStaff then "\n\nStaff link: " ++ p.options.ticketKey else "")

def toDocument (p : Preview) : Document :=
  .table [("subject", .text p.subject),
    ("templates", .table [("html", .text Notice.htmlTemplate), ("txt", .text Notice.textTemplate)]),
    ("options", p.options.toDocument), ("attachment_changes", Change.listDocument p.attachments)]

end Preview
end Helpdesk.Cli
