import ResourceSearch.Alert
import ResourceSearch.Cache.Entry
import ResourceSearch.Cache.Key
import ResourceSearch.Cache.Reconcile
import ResourceSearch.Cache.Snapshot
import ResourceSearch.Cache.Store
import ResourceSearch.CommandLine.Arguments
import ResourceSearch.CommandLine.Grammar
import ResourceSearch.CommandLine.Output
import ResourceSearch.CommandLine.Run
import ResourceSearch.Config
import ResourceSearch.Decimal.Binary64
import ResourceSearch.Decimal.Shortest
import ResourceSearch.Dialog
import ResourceSearch.Failure
import ResourceSearch.File.Access
import ResourceSearch.File.Disk
import ResourceSearch.File.Path
import ResourceSearch.Format
import ResourceSearch.Json.Basic
import ResourceSearch.Json.Decoder
import ResourceSearch.Json.Fault
import ResourceSearch.Json.Printer
import ResourceSearch.Json.Reader
import ResourceSearch.Main
import ResourceSearch.Query.Basic
import ResourceSearch.Query.Completion
import ResourceSearch.Query.Form
import ResourceSearch.Query.Link
import ResourceSearch.Query.Suggestion
import ResourceSearch.Query.Syntax
import ResourceSearch.Resource
import ResourceSearch.Service
import ResourceSearch.Text.Hex
import ResourceSearch.Text.Percent
import ResourceSearch.Text.Split
import ResourceSearch.Text.Utf8
import ResourceSearch.Toml.Printer
import ResourceSearch.Toml.Reader
import ResourceSearch.Toml.Scalar
import ResourceSearch.Toml.Value
import ResourceSearch.Yaml.Printer
import ResourceSearch.Yaml.Scalar
import ResourceSearch.Proofs.Cache.Adjust
import ResourceSearch.Proofs.Cache.Contents
import ResourceSearch.Proofs.Cache.Counting
import ResourceSearch.Proofs.Cache.Edits
import ResourceSearch.Proofs.Cache.Failing
import ResourceSearch.Proofs.Cache.Finding
import ResourceSearch.Proofs.Cache.InStep
import ResourceSearch.Proofs.Cache.KeyOrder
import ResourceSearch.Proofs.Cache.Listed
import ResourceSearch.Proofs.Cache.Loaded
import ResourceSearch.Proofs.Cache.Order
import ResourceSearch.Proofs.Cache.Outdated
import ResourceSearch.Proofs.Cache.Replacing
import ResourceSearch.Proofs.Cache.Restored
import ResourceSearch.Proofs.Cache.Saving
import ResourceSearch.Proofs.Cache.Session
import ResourceSearch.Proofs.Cache.Updating
import ResourceSearch.Proofs.Cache.Weight
import ResourceSearch.Proofs.Cache.Written
import ResourceSearch.Proofs.CommandLine.DryRun
import ResourceSearch.Proofs.CommandLine.Flags
import ResourceSearch.Proofs.CommandLine.Reconciling
import ResourceSearch.Proofs.CommandLine.Rendering
import ResourceSearch.Proofs.Dialog.Gate
import ResourceSearch.Proofs.Dialog.History
import ResourceSearch.Proofs.Dialog.Page
import ResourceSearch.Proofs.File.Places
import ResourceSearch.Proofs.File.Requests
import ResourceSearch.Proofs.Json.Brackets
import ResourceSearch.Proofs.Json.Faithful
import ResourceSearch.Proofs.Json.Literal
import ResourceSearch.Proofs.Json.Members
import ResourceSearch.Proofs.Json.Places
import ResourceSearch.Proofs.Json.Skipping
import ResourceSearch.Proofs.Json.Spelling
import ResourceSearch.Proofs.Json.Strict
import ResourceSearch.Proofs.Json.Strings
import ResourceSearch.Proofs.Json.Values
import ResourceSearch.Proofs.Query.Canonical
import ResourceSearch.Proofs.Query.Completion
import ResourceSearch.Proofs.Query.Escaped
import ResourceSearch.Proofs.Query.Joining
import ResourceSearch.Proofs.Query.Link
import ResourceSearch.Proofs.Query.Parameters
import ResourceSearch.Proofs.Query.Suggestion
import ResourceSearch.Proofs.Query.Tokens
import ResourceSearch.Proofs.Query.WellFormed
import ResourceSearch.Proofs.Resource
import ResourceSearch.Proofs.Text.Length
import ResourceSearch.Proofs.Text.Order
