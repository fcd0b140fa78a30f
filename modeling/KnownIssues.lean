import KnownIssues.Decimal.Shortest
import KnownIssues.Diagnostic
import KnownIssues.Digest.Md5
import KnownIssues.Disk
import KnownIssues.Event
import KnownIssues.Fault
import KnownIssues.Fingerprint
import KnownIssues.Issue
import KnownIssues.Issue.Format
import KnownIssues.IssueCache
import KnownIssues.IssueStore
import KnownIssues.Json.Fault
import KnownIssues.Json.Format
import KnownIssues.Json.Numeral
import KnownIssues.Json.Passing
import KnownIssues.Json.Reader
import KnownIssues.Json.Record
import KnownIssues.Json.Text
import KnownIssues.Json.Values
import KnownIssues.KeyLookup
import KnownIssues.Matching
import KnownIssues.Path
import KnownIssues.Place
import KnownIssues.ProjectKey
import KnownIssues.Proofs.Batch
import KnownIssues.Proofs.CacheHistory
import KnownIssues.Proofs.Digest.Recurrence
import KnownIssues.Proofs.Digest.Sines
import KnownIssues.Proofs.Disk
import KnownIssues.Proofs.DiskTree
import KnownIssues.Proofs.Drift
import KnownIssues.Proofs.FileName
import KnownIssues.Proofs.Fingerprint
import KnownIssues.Proofs.Formats
import KnownIssues.Proofs.Isolation
import KnownIssues.Proofs.IssueSet
import KnownIssues.Proofs.Json.Extension
import KnownIssues.Proofs.Json.Grammar
import KnownIssues.Proofs.Json.Passing
import KnownIssues.Proofs.Json.Reading
import KnownIssues.Proofs.Json.RoundTrip
import KnownIssues.Proofs.Json.Slots
import KnownIssues.Proofs.Json.TokenExtension
import KnownIssues.Proofs.Json.Tokens
import KnownIssues.Proofs.KeyBelowRoot
import KnownIssues.Proofs.KeyForms
import KnownIssues.Proofs.KeyLookup
import KnownIssues.Proofs.Lines
import KnownIssues.Proofs.Lines.Canonical
import KnownIssues.Proofs.Lines.Extents
import KnownIssues.Proofs.Matching
import KnownIssues.Proofs.Outcome
import KnownIssues.Proofs.Path
import KnownIssues.Proofs.PathParent
import KnownIssues.Proofs.ProjectKey
import KnownIssues.Proofs.RecordShape
import KnownIssues.Proofs.Registry
import KnownIssues.Proofs.Registry.Order
import KnownIssues.Proofs.Session
import KnownIssues.Proofs.Splitting
import KnownIssues.Proofs.Store
import KnownIssues.Proofs.StoreRoom
import KnownIssues.Proofs.Truncation
import KnownIssues.Proofs.Verdicts
import KnownIssues.Registry
import KnownIssues.Session
import KnownIssues.Source
import KnownIssues.Suppressor
import KnownIssues.Table
import KnownIssues.Text.AsciiCase
import KnownIssues.Text.Blank
import KnownIssues.Text.Hex
import KnownIssues.Text.Percent
import KnownIssues.Text.Quoted
import KnownIssues.Text.Utf8
import KnownIssues.Text.Visible
import KnownIssues.Trie
