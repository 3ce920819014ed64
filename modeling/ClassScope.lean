import ClassScope.Archive.Writer
import ClassScope.Main
import ClassScope.Proofs.Analysis.Invariant
import ClassScope.Proofs.Analysis.Session
import ClassScope.Proofs.Analysis.Changes
import ClassScope.Proofs.Analysis.Effects
import ClassScope.Proofs.Analysis.Operations
import ClassScope.Proofs.Analysis.Progress
import ClassScope.Proofs.Analysis.Runs
import ClassScope.Proofs.Analysis.Services
import ClassScope.Proofs.Text.Lossy
import ClassScope.Proofs.Path.Spelling
import ClassScope.Proofs.Disk.Places
import ClassScope.Proofs.Scan.Plain
import ClassScope.Proofs.BootIndex.History
import ClassScope.Proofs.BootIndex.Lookups
import ClassScope.Proofs.Analysis.Disposal
import ClassScope.Proofs.Analysis.Steps
import ClassScope.Proofs.Analysis.Teardown
import ClassScope.Proofs.Scan.Caches
import ClassScope.Proofs.Analysis.Visibility
import ClassScope.Proofs.Analysis.Requests
import ClassScope.Proofs.ClassIndex.RoundTrip
import ClassScope.Proofs.Disk.Writes
import ClassScope.Proofs.ClassIndex.Kept
import ClassScope.Proofs.Scan.Indexed
import ClassScope.Proofs.Analysis.Parts
import ClassScope.Proofs.Analysis.Retention
import ClassScope.Proofs.Retry.Calls
import ClassScope.Proofs.Analysis.Contexts
import ClassScope.Proofs.Analysis.Answers
import ClassScope.Proofs.Module.Registration
import ClassScope.Proofs.ClassIndex.Prefixes
import ClassScope.Proofs.Disk.Overwrites
import ClassScope.Proofs.ClassIndex.Stores
import ClassScope.Proofs.Analysis.Unindexed
import ClassScope.Proofs.Command.Agreement
import ClassScope.Proofs.Config.Accepted
import ClassScope.Proofs.Config.RoundTrip
import ClassScope.Proofs.Command.Printing
import ClassScope.Proofs.ClassFile.Names
import ClassScope.Proofs.ClassFile.Prefixes
import ClassScope.Proofs.ClassFile.OwnText
import ClassScope.Proofs.Scan.TopLevel
import ClassScope.Proofs.Scan.Listings
import ClassScope.Proofs.Scan.Walks
import ClassScope.Proofs.Scan.Trees
import ClassScope.Proofs.Analysis.Attempts
import ClassScope.Proofs.Analysis.Failures
import ClassScope.Proofs.Analysis.Retries
import ClassScope.Proofs.Disk.Histories
import ClassScope.Proofs.Scan.Unchanged
import ClassScope.Proofs.BootIndex.Bookkeeping
import ClassScope.Proofs.Dependencies.Sharing
import ClassScope.Proofs.Scan.Damaged
import ClassScope.Proofs.Analysis.Purging
import ClassScope.Proofs.Retry.Reconnecting
import ClassScope.Proofs.ClassNameSet.Canonical
import ClassScope.Proofs.Analysis.Counters
