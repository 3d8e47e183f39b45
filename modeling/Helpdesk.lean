import Helpdesk.Main
import Helpdesk.Proofs.Query.Rendering
import Helpdesk.Proofs.Rule.Age
import Helpdesk.Proofs.Rule.Locality
import Helpdesk.Proofs.Rule.Erasure
import Helpdesk.Proofs.Query.Spelling
import Helpdesk.Proofs.Rule.Names
import Helpdesk.Proofs.Rule.Text
import Helpdesk.Proofs.Time.Text
import Helpdesk.Proofs.Store.History
import Helpdesk.Proofs.Store.Ticket
import Helpdesk.Proofs.Document.Json
import Helpdesk.Proofs.Audit
import Helpdesk.Proofs.Store.Log
import Helpdesk.Proofs.Rule.Binding
import Helpdesk.Proofs.Rule.Membership
import Helpdesk.Proofs.Rule.Search
import Helpdesk.Proofs.Rule.Threshold
import Helpdesk.Proofs.Config.Classes
import Helpdesk.Proofs.Store.Integrity
import Helpdesk.Proofs.Rule.Refusal
import Helpdesk.Proofs.Rule.Multiplicity
import Helpdesk.Proofs.Config.Document
import Helpdesk.Proofs.Rule.Document
import Helpdesk.Proofs.Store.Preview
import Helpdesk.Proofs.Time.Order
import Helpdesk.Proofs.Config.Validity
import Helpdesk.Proofs.Rule.Building
import Helpdesk.Proofs.Store.Migration
import Helpdesk.Proofs.Rule.Hours
import Helpdesk.Proofs.Priority
import Helpdesk.Proofs.Rule.Identity
import Helpdesk.Proofs.Notice
