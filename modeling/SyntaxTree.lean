import SyntaxTree.Main
import SyntaxTree.Proofs.Links
import SyntaxTree.Proofs.Store
import SyntaxTree.Proofs.Linking
import SyntaxTree.Proofs.Replacing
import SyntaxTree.Proofs.Siblings
import SyntaxTree.Proofs.Ancestry
import SyntaxTree.Proofs.Coherence
import SyntaxTree.Proofs.Building
import SyntaxTree.Proofs.Binding
import SyntaxTree.Proofs.Substitution
import SyntaxTree.Proofs.Editing
import SyntaxTree.Proofs.Reachable
import SyntaxTree.Proofs.Succession
import SyntaxTree.Proofs.Forest
import SyntaxTree.Proofs.Replaying
import SyntaxTree.Proofs.DocumentOrder
import SyntaxTree.Proofs.Offsets
import SyntaxTree.Proofs.LeafOrder
import SyntaxTree.Proofs.Checking
import SyntaxTree.Proofs.Loading
import SyntaxTree.Proofs.ForeignNodes
import SyntaxTree.Proofs.Reshaping
import SyntaxTree.Proofs.Locality
import SyntaxTree.Proofs.Preservation
import SyntaxTree.Proofs.Kinship
import SyntaxTree.Proofs.Lineage
import SyntaxTree.Proofs.Handles
import SyntaxTree.Proofs.Remaking
import SyntaxTree.Proofs.Recorded
import SyntaxTree.Proofs.Retention
import SyntaxTree.Proofs.LastBinding
import SyntaxTree.Proofs.Mirroring
import SyntaxTree.Proofs.Drawings
import SyntaxTree.Proofs.Commuting
import SyntaxTree.Proofs.TokenOrder
import SyntaxTree.Proofs.Placement
import SyntaxTree.Proofs.Quoting
import SyntaxTree.Proofs.Legibility
import SyntaxTree.Proofs.Levels
import SyntaxTree.Proofs.DumpLines
import SyntaxTree.Proofs.Reading
import SyntaxTree.Proofs.Losslessness
import SyntaxTree.Proofs.Verdicts
import SyntaxTree.Proofs.Spelling
import SyntaxTree.Proofs.Documents
import SyntaxTree.Proofs.Renditions
import SyntaxTree.Proofs.Members
import SyntaxTree.Proofs.Extents
import SyntaxTree.Proofs.Lookup
import SyntaxTree.Proofs.Skipping
import SyntaxTree.Proofs.BothEnds
import SyntaxTree.Proofs.Refusals
import SyntaxTree.Proofs.Positions
import SyntaxTree.Proofs.LastLines
import SyntaxTree.Proofs.VisibleLeaves
