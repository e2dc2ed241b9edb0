import GraphRead.Proofs.Account.Query
import GraphRead.Proofs.Binding.Applied
import GraphRead.Proofs.Binding.Sound
import GraphRead.Proofs.Columns.Execute
import GraphRead.Proofs.Document.Accepted
import GraphRead.Proofs.Execution.Blame
import GraphRead.Proofs.Filter.Composed
import GraphRead.Proofs.Filter.Inverted
import GraphRead.Proofs.Graphql.Substituted
import GraphRead.Proofs.Intact.Execute
import GraphRead.Proofs.Merging.Build
import GraphRead.Proofs.Metadata.Execute
import GraphRead.Proofs.Page.Keys
import GraphRead.Proofs.Paging.Execute
import GraphRead.Proofs.PerParent.Execute
import GraphRead.Proofs.Reorder.Execute
import GraphRead.Proofs.Repeat.Execute
import GraphRead.Proofs.Resolve.Arrival
import GraphRead.Proofs.Resolve.Budget
import GraphRead.Proofs.Resolve.Keys
import GraphRead.Proofs.Resolve.Lists
import GraphRead.Proofs.Resolve.Lookup
import GraphRead.Proofs.Resolve.Names
import GraphRead.Proofs.Resolve.Requests
import GraphRead.Proofs.Resolve.Served
import GraphRead.Proofs.Schema.Faithful
import GraphRead.Proofs.Scope.Execute
import GraphRead.Proofs.Value.Settled
import GraphRead.Proofs.Walk.Execute
import GraphRead.Proofs.Walk.Sides
import GraphRead.Schema.Build
