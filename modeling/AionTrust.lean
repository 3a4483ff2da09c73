import AionTrust.Framework.Calendar
import AionTrust.Framework.Delimited
import AionTrust.Framework.Fallible
import AionTrust.Framework.Framing
import AionTrust.Framework.History
import AionTrust.Framework.Machine
import AionTrust.Framework.Markup
import AionTrust.Framework.Outline
import AionTrust.Framework.MerkleTree
import AionTrust.Framework.Process
import AionTrust.Framework.Quorum
import AionTrust.Framework.Radix
import AionTrust.Impl.Claims.Anchor
import AionTrust.Impl.Claims.Bodies
import AionTrust.Impl.Claims.Claim
import AionTrust.Impl.Claims.Disclosure
import AionTrust.Impl.Claims.Fields
import AionTrust.Impl.Claims.Nonce
import AionTrust.Impl.Claims.Presentation
import AionTrust.Impl.Claims.Reliance
import AionTrust.Impl.Cli
import AionTrust.Impl.Commands
import AionTrust.Impl.Core.Checked
import AionTrust.Impl.Core.Encoding
import AionTrust.Impl.Core.External
import AionTrust.Impl.Core.Id
import AionTrust.Impl.Core.Language
import AionTrust.Impl.Core.Merkle
import AionTrust.Impl.Files
import AionTrust.Impl.Interop.Didkey
import AionTrust.Impl.Interop.Error
import AionTrust.Impl.Interop.Jsonget
import AionTrust.Impl.Interop.Rfc3339
import AionTrust.Impl.Interop.Vc
import AionTrust.Impl.Interop.Vp
import AionTrust.Impl.Json
import AionTrust.Impl.Registry
import AionTrust.Impl.Wallet
import AionTrust.Impl.Web.Handlers
import AionTrust.Impl.Web.Pages
import AionTrust.Impl.Web.Parse
import AionTrust.Impl.Web.State
import AionTrust.Impl.Web.Walkthrough
import AionTrust.Proof.Acceptance
import AionTrust.Proof.Accreditation
import AionTrust.Proof.Agreement
import AionTrust.Proof.AuditPath
import AionTrust.Proof.Authentic
import AionTrust.Proof.Binding
import AionTrust.Proof.Commands
import AionTrust.Proof.Commitments
import AionTrust.Proof.Core.Checked
import AionTrust.Proof.Core.Language
import AionTrust.Proof.Core.Merkle
import AionTrust.Proof.Disclose
import AionTrust.Proof.Disclosure
import AionTrust.Proof.Eviction
import AionTrust.Proof.FileStore
import AionTrust.Proof.Flags
import AionTrust.Proof.Forms
import AionTrust.Proof.Holder
import AionTrust.Proof.Honest
import AionTrust.Proof.Interop.Calendar
import AionTrust.Proof.Interop.Didkey
import AionTrust.Proof.Interop.Grammar
import AionTrust.Proof.Interop.Reading
import AionTrust.Proof.Interop.Rfc3339
import AionTrust.Proof.Interop.RoundTrip
import AionTrust.Proof.Interop.Text
import AionTrust.Proof.Interop.Vc
import AionTrust.Proof.Interop.Vp
import AionTrust.Proof.Issuing
import AionTrust.Proof.Layouts
import AionTrust.Proof.Leaves
import AionTrust.Proof.Lines
import AionTrust.Proof.Messages
import AionTrust.Proof.Network
import AionTrust.Proof.Noninterference
import AionTrust.Proof.Packages
import AionTrust.Proof.Pages
import AionTrust.Proof.PathFinder
import AionTrust.Proof.Predicates
import AionTrust.Proof.Pretty
import AionTrust.Proof.Revealing
import AionTrust.Proof.Revocation
import AionTrust.Proof.Seeding
import AionTrust.Proof.Selectors
import AionTrust.Proof.Sentinel
import AionTrust.Proof.Serving
import AionTrust.Proof.Shapes
import AionTrust.Proof.SingleUse
import AionTrust.Proof.Submitting
import AionTrust.Proof.Unforgeable
import AionTrust.Proof.Verdict
import AionTrust.Proof.Verifiers
import AionTrust.Proof.Walkthrough
import AionTrust.Proof.Web
import AionTrust.Spec.Acceptance
import AionTrust.Spec.Commands
import AionTrust.Spec.Documents
import AionTrust.Spec.Flags
import AionTrust.Spec.Forms
import AionTrust.Spec.Holder
import AionTrust.Spec.Issuing
import AionTrust.Spec.Lines
import AionTrust.Spec.Messages
import AionTrust.Spec.Network
import AionTrust.Spec.Pages
import AionTrust.Spec.Pretty
import AionTrust.Spec.Registry
import AionTrust.Spec.Shapes
import AionTrust.Spec.SingleUse
import AionTrust.Spec.Timestamps
import AionTrust.Spec.Walkthrough
import AionTrust.Spec.Web
import AionTrust.Proof.Pipeline
