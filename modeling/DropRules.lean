import DropRules.Adoption
import DropRules.Assembly
import DropRules.Catalog
import DropRules.Condition
import DropRules.Decimal.Dyadic
import DropRules.Decimal.Fixed
import DropRules.Decimal.Notation
import DropRules.Decimal.Shortest
import DropRules.Directory
import DropRules.Dispatcher
import DropRules.Entry
import DropRules.Evaluation
import DropRules.Handle
import DropRules.Listing
import DropRules.Logged
import DropRules.Naming
import DropRules.Notice
import DropRules.Proofs.Canonical
import DropRules.Proofs.Coherence
import DropRules.Proofs.Directory
import DropRules.Proofs.Editing
import DropRules.Proofs.Entries
import DropRules.Proofs.Fields
import DropRules.Proofs.Grouping
import DropRules.Proofs.Layout
import DropRules.Proofs.Listing
import DropRules.Proofs.Misfits
import DropRules.Proofs.Names
import DropRules.Proofs.Notices
import DropRules.Proofs.Numbering
import DropRules.Proofs.Priority
import DropRules.Proofs.Provenance
import DropRules.Proofs.Reassembly
import DropRules.Proofs.Register
import DropRules.Proofs.Reimport
import DropRules.Proofs.Renaming
import DropRules.Proofs.Replacement
import DropRules.Proofs.Session
import DropRules.Proofs.Settings
import DropRules.Proofs.Spelling
import DropRules.Proofs.Strangers
import DropRules.Proofs.Takeover
import DropRules.Proofs.Tally
import DropRules.Proofs.Yaml.Atoms
import DropRules.Proofs.Yaml.Compact
import DropRules.Proofs.Yaml.Cutting
import DropRules.Proofs.Yaml.Decoding
import DropRules.Proofs.Yaml.Likeness
import DropRules.Proofs.Yaml.Lines
import DropRules.Proofs.Yaml.Literal
import DropRules.Proofs.Yaml.Meaning
import DropRules.Proofs.Yaml.Nesting
import DropRules.Proofs.Yaml.Plain
import DropRules.Proofs.Yaml.Quotes
import DropRules.Proofs.Yaml.Reading
import DropRules.Proofs.Yaml.Texts
import DropRules.Proofs.Yaml.Values
import DropRules.Proofs.Yaml.Words
import DropRules.Rarity
import DropRules.Recovery
import DropRules.Register
import DropRules.Region
import DropRules.Rule
import DropRules.Session
import DropRules.Settings
import DropRules.Symbol
import DropRules.Table
import DropRules.Tally
import DropRules.Text.Blank
import DropRules.Text.Quoted
import DropRules.Text.Unseen
import DropRules.Yaml.Atom
import DropRules.Yaml.Character
import DropRules.Yaml.Complaint
import DropRules.Yaml.Cursor
import DropRules.Yaml.Decode
import DropRules.Yaml.Document
import DropRules.Yaml.Fault
import DropRules.Yaml.Mark
import DropRules.Yaml.Node
import DropRules.Yaml.Scalar.Block
import DropRules.Yaml.Scalar.Gap
import DropRules.Yaml.Scalar.Plain
import DropRules.Yaml.Scalar.Quoted
import DropRules.Yaml.Token
import DropRules.Yaml.Token.Stream
import DropRules.Yaml.Token.Tag
import DropRules.Yaml.Value
import DropRules.Yaml.Written
