import CliMetadata.Catalogue.Changes
import CliMetadata.Catalogue.Creation
import CliMetadata.Catalogue.Judgements
import CliMetadata.Catalogue.Lists
import CliMetadata.Catalogue.Plain
import CliMetadata.Catalogue.Properties
import CliMetadata.Catalogue.Storage
import CliMetadata.Proofs.Comparison.Equality
import CliMetadata.Proofs.Comparison.NormalForms
import CliMetadata.Proofs.Ownership.FirstReads
import CliMetadata.Proofs.Ownership.Nesting
import CliMetadata.Proofs.Ownership.Refusals
import CliMetadata.Proofs.Resolution.Agreement
import CliMetadata.Proofs.Resolution.Descents
import CliMetadata.Proofs.Resolution.Forwarders
import CliMetadata.Proofs.Resolution.FileExports
import CliMetadata.Proofs.Resolution.TextNames
import CliMetadata.Proofs.Containment.Paths
import CliMetadata.Proofs.Containment.Equals
import CliMetadata.Proofs.Identity.DisplayNames
import CliMetadata.Proofs.Identity.KeyTokens
import CliMetadata.Proofs.Identity.PublicKeyTokens
import CliMetadata.Proofs.Identity.Requests
import CliMetadata.Proofs.Identity.StoredIdentities
import CliMetadata.Proofs.Identity.Versions
import CliMetadata.Proofs.Resolution.Registration
import CliMetadata.Proofs.Resolution.RegistrationOrder
import CliMetadata.Proofs.Resolution.Renaming
import CliMetadata.Proofs.Resolution.Scopes
import CliMetadata.Proofs.Display.FullNames
import CliMetadata.Proofs.Projection.Agreement
import CliMetadata.Proofs.Projection.Listing
import CliMetadata.Proofs.Projection.MemberReferences
import CliMetadata.Proofs.Projection.Repetition
import CliMetadata.Proofs.Resolution.ProjectedMembers
import CliMetadata.Proofs.Resolution.BaseWalks
import CliMetadata.Proofs.Slot.Runs
import CliMetadata.Proofs.Resolution.NearestMembers
import CliMetadata.Proofs.Graph.Accessors
import CliMetadata.Proofs.Graph.Contents
import CliMetadata.Proofs.Graph.Initialised
import CliMetadata.Proofs.Graph.NestedRows
import CliMetadata.Proofs.Graph.RowAccess
import CliMetadata.Proofs.Rereading.Stability
import CliMetadata.Proofs.Resolution.ExportedPaths
