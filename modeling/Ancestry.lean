import Ancestry.Main
import Ancestry.Session
import Ancestry.Proofs.Laws
import Ancestry.Proofs.Walk.Depth
import Ancestry.Proofs.Session.MissingEntries
import Ancestry.Proofs.Arrays
import Ancestry.Proofs.Roots
import Ancestry.Proofs.Text.Words
import Ancestry.Proofs.Hierarchy.Grammar
import Ancestry.Proofs.Hierarchy.Names
import Ancestry.Proofs.Hierarchy.Resolution
import Ancestry.Proofs.Hierarchy.Meaning
import Ancestry.Proofs.Hierarchy.Identities
import Ancestry.Proofs.Check
import Ancestry.Proofs.Hierarchy.Statements
import Ancestry.Proofs.Renaming
import Ancestry.Proofs.Hierarchy.Order
import Ancestry.Proofs.Walk.Remembered
import Ancestry.Proofs.Requests
import Ancestry.Proofs.Hierarchy.Kinds
import Ancestry.Proofs.Interfaces
import Ancestry.Proofs.Conflicts
import Ancestry.Proofs.Cache.Stored
import Ancestry.Proofs.CheckOrder
import Ancestry.Proofs.ConflictRecord
import Ancestry.Proofs.Session.Reuse
import Ancestry.Proofs.Json.Report
import Ancestry.Proofs.Json.Orders
import Ancestry.Proofs.Walk.Limit
import Ancestry.Proofs.Walk.Effort
import Ancestry.Proofs.Hierarchy.Errors
import Ancestry.Proofs.Node.RoundTrip
import Ancestry.Proofs.Cache.Counts
import Ancestry.Proofs.Cache.Published
import Ancestry.Proofs.ConflictNotes
import Ancestry.Proofs.Catalog.Changes
import Ancestry.Proofs.Colours
import Ancestry.Proofs.Walk.Nested
